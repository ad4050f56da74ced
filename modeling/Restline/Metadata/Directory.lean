import Restline.Host
import Restline.Metadata.Store

/-!
Bundles in directories: the index is the file `index.json`, and each command document is a file of its
name in the directory `commands`.

* `Bundle.ofDirectory` : the bundle in a directory of a host.
-/

set_option autoImplicit false

namespace Restline

namespace Host

/-- The JSON value of a document, or why it is not there. -/
def document (h : Host) (p : Path) (absent : StoreFault) : Except StoreFault Json := do
  let unreachable (f : FileFault) : StoreFault := .unreachable f.crash
  if ← (h.files.isFile h.workDir p).mapError unreachable then
    let bytes ← (h.files.read h.workDir p).mapError unreachable
    let text ← (Text.Utf8.readText bytes).mapError (fun _ => StoreFault.undecodable)
    (Json.read text).mapError (StoreFault.ofReadFault p.toText text)
  else throw absent

end Host

namespace Bundle

/-- The file of the index. -/
def indexFile (root : Path) : Path := root.join "index.json"

/-- The file of a command document. -/
def commandFile (root : Path) (id : String) : Path := (root.join "commands").join (id ++ ".json")

/-- The bundle in a directory. -/
def ofDirectory (h : Host) (root : Path) : Bundle where
  index := h.document (indexFile root) (.noIndex (some (indexFile root).toText))
  command id := h.document (commandFile root id) (.noCommand id (some (commandFile root id).toText))

end Bundle

end Restline
