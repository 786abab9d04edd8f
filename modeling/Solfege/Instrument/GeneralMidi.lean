/-!
Contract: the instruments of the General MIDI standard.

Owns:
- the names of the 128 programs, by program number;
- the short names of four families, each standing for the first of its family;
- the program number of a name.

Does not own: which instruments a score uses.
-/

namespace Solfege.Instrument

/-- The General MIDI names, the program number of each being its place in the list. -/
def programs : List String :=
  [
    -- Piano
    "acoustic_grand_piano", "bright_acoustic_piano", "electric_grand_piano", "honkytonk_piano",
    "electric_piano_1", "electric_piano_2", "harpsichord", "clavinet",
    -- Chromatic percussion
    "celesta", "glockenspiel", "music_box", "vibraphone", "marimba", "xylophone",
    "tubular_bells", "dulcimer",
    -- Organ
    "drawbar_organ", "percussive_organ", "rock_organ", "church_organ", "reed_organ",
    "accordion", "harmonica", "tango_accordion",
    -- Guitar
    "acoustic_guitar_nylon", "acoustic_guitar_steel", "electric_guitar_jazz",
    "electric_guitar_clean", "electric_guitar_muted", "overdriven_guitar", "distortion_guitar",
    "guitar_harmonics",
    -- Bass
    "acoustic_bass", "electric_bass_finger", "electric_bass_pick", "fretless_bass",
    "slap_bass_1", "slap_bass_2", "synth_bass_1", "synth_bass_2",
    -- Strings
    "violin", "viola", "cello", "contrabass", "tremolo_strings", "pizzicato_strings",
    "orchestral_harp", "timpani",
    -- Ensemble
    "string_ensemble_1", "string_ensemble_2", "synth_strings_1", "synth_strings_2",
    "choir_aahs", "voice_oohs", "synth_choir", "orchestra_hit",
    -- Brass
    "trumpet", "trombone", "tuba", "muted_trumpet", "french_horn", "brass_section",
    "synth_brass_1", "synth_brass_2",
    -- Reed
    "soprano_sax", "alto_sax", "tenor_sax", "baritone_sax", "oboe", "english_horn", "bassoon",
    "clarinet",
    -- Pipe
    "piccolo", "flute", "recorder", "pan_flute", "blown_bottle", "shakuhachi", "whistle",
    "ocarina",
    -- Synth lead
    "lead_1_square", "lead_2_sawtooth", "lead_3_calliope", "lead_4_chiff", "lead_5_charang",
    "lead_6_voice", "lead_7_fifths", "lead_8_bass_lead",
    -- Synth pad
    "pad_1_new_age", "pad_2_warm", "pad_3_polysynth", "pad_4_choir", "pad_5_bowed",
    "pad_6_metallic", "pad_7_halo", "pad_8_sweep",
    -- Synth effects
    "fx_1_rain", "fx_2_soundtrack", "fx_3_crystal", "fx_4_atmosphere", "fx_5_brightness",
    "fx_6_goblins", "fx_7_echoes", "fx_8_scifi",
    -- Ethnic
    "sitar", "banjo", "shamisen", "koto", "kalimba", "bagpipe", "fiddle", "shanai",
    -- Percussive
    "tinkle_bell", "agogo", "steel_drums", "woodblock", "taiko_drum", "melodic_tom",
    "synth_drum", "reverse_cymbal",
    -- Sound effects
    "guitar_fret_noise", "breath_noise", "seashore", "bird_tweet", "telephone_ring",
    "helicopter", "applause", "gunshot"
  ]

/-- Short names of families, with the number of the program each stands for. -/
def families : List (String × Nat) :=
  [("piano", 0), ("organ", 16), ("guitar", 24), ("bass", 32)]

/-- The program number of an instrument: that of its family if it names one, else its
place among the General MIDI names. -/
def programNumber? (name : String) : Option Nat :=
  match families.lookup name with
  | some number => some number
  | none => programs.findIdx? fun program => program = name

/-- There are as many programs as MIDI program numbers. -/
theorem programs_length : programs.length = 128 := by
  rfl

end Solfege.Instrument
