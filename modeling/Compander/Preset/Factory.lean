import Compander.Preset

/-!
# Factory presets

The presets that are at hand without a file, each under an identifier. `factory?`
finds one by its identifier or by its name, in any mix of cases.

They are setups like any other and go through the same checks when they are
resolved. As they set one pair of time constants each, channels beyond the first
follow at once.
-/

namespace Compander.Preset

/-- The factory presets under their identifiers. Each sets one pair of time
constants, so that it fits any number of channels. -/
def factory : List (String × Preset) :=
  [("default",
    { name := "Default"
      description := "Library defaults: expands below -70 dB, lifts quiet passages strongly" }),
   ("noisy-room",
    { name := "Noisy Room"
      description := "Raise quiet passages of music for listening over background noise"
      options := "attacks=0.3:decays=1:soft-knee=6:gain=0:volume=-90:delay=0.2"
      points := "-90/-60|-60/-40|-40/-30|-20/-20" }),
   ("noise-gate",
    { name := "Noise Gate"
      description := "Silence everything below -50 dB"
      options := "attacks=0.1:decays=0.2:soft-knee=0.01:volume=-90:delay=0.1"
      points := "-900/-900|-50.1/-900|-50/-50" }),
   ("speech",
    { name := "Speech"
      description := "Even out a voice recording with gentle lookahead compression"
      options := "attacks=0.02:decays=0.3:volume=-90:delay=0.01"
      points := "-80/-80|-45/-30|-20/-14|0/-8"
      softKnee := some 6.0
      gain := some 2.0 }),
   ("hard-limiter",
    { name := "Hard Limiter"
      description := "Instant attack limiter with a -6 dB ceiling"
      options := "attacks=0"
      points := "-80/-80|-6/-6|0/-6|20/-6" })]

/-- A name in lower case. Only ASCII letters have a case here, which is enough to
find names that are written in them. -/
def foldCase (name : String) : List Char :=
  name.toList.map Char.toLower

/-- The factory preset of an identifier or, if there is none, of a name. The cases of what is
asked for do not matter; identifiers are in lower case themselves. -/
def factory? (name : String) : Option Preset :=
  match factory.find? fun (id, _) => id.toList = foldCase name with
  | some (_, preset) => some preset
  | none => (factory.map (·.2)).find? fun preset => foldCase preset.name = foldCase name

end Compander.Preset
