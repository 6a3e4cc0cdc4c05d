import SourceOutline.Definitions
import SourceOutline.Files.SourceFile

/-! Definitions in files. -/
namespace SourceOutline

/-- The definitions of the TOML document at a path. -/
def Definitions.ofFile (disk : Disk) (path : String) : Except FilterError Definitions :=
  match disk path with
  | .error e => .error (.definitionsFile path e.message)
  | .ok (.directory _) => .error (.definitionsFile path SystemError.isDirectory.message)
  | .ok (.file content) =>
    if SourceFile.sizeLimit < content.size then
      .error (.definitionsFile path
        s!"file is {content.size} bytes (max {SourceFile.sizeLimit})")
    else
      match content.text? with
      | none => .error (.definitionsFile path SystemError.invalidText.message)
      | some text => ofToml path text

end SourceOutline
