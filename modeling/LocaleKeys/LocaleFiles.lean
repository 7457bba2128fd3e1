/-
The files of a locale.

The settings say where these files are by patterns in which a placeholder
stands for the name of the locale. Patterns are relative to the root of the
project. A file that several patterns stand for is found once, by the first of
them.
-/
import LocaleKeys.Config.Validation
import LocaleKeys.Glob.Search

set_option autoImplicit false

namespace LocaleKeys

/-- The pattern that a template is for one locale, where the name of the locale
stands for itself (`expand_template`). -/
def expandTemplate (template locale : String) (root : Path) : Except ConfigFault String :=
  if !hasPlaceholder template then .error (.missingPlaceholder template)
  else
    let pattern := Text.replaced template localePlaceholder (Glob.escape locale)
    if (Path.mk pattern).isAbsolute then .ok pattern
    else .ok (withoutSlashes (Glob.escape root.text) ++ "/" ++ pattern)
where
  /-- The text without the slashes at its end. -/
  withoutSlashes (text : String) : String :=
    String.ofList (text.toList.reverse.dropWhile (· == '/')).reverse

/-- The files that a template stands for. -/
def filesOfTemplate (d : Disk) (template locale : String) (root : Path) :
    Except ConfigFault (List Path) := do
  let pattern ← expandTemplate template locale root
  match Glob.find d pattern with
  | .ok paths => return paths.filter d.isFile
  | .error fault => throw (.badTemplate template fault)

/-- The files of a locale, template by template (`locale_files`). -/
def localeFiles (d : Disk) (templates : List String) (locale : String) (root : Path) :
    Except ConfigFault (List Path) := do
  let files ← templates.mapM (filesOfTemplate d · locale root)
  return Path.distinct files.flatten

end LocaleKeys
