/-
Bindings: declarations that give a name to the look-up function of a hook.

In `const t = useI18n("home")` the name `t` looks up keys below `home`, and in
`const { t: translate } = useTranslation("auth")` the name `translate` looks up
keys below `auth`.
-/
import LocaleKeys.Config.Basic
import LocaleKeys.Outline.Builder

set_option autoImplicit false

namespace LocaleKeys

/-- A name that looks up keys, and where it does (`NamespaceBinding`). -/
structure Binding where
  /-- What stands in front of every key that is looked up. It is empty if the
  hook is not given a text. -/
  prefixKey : String
  /-- The name that is called to look up a key. -/
  accessor : String
  /-- Where the declaration begins. -/
  site : Text.Position
  /-- The declaration. Of two in one scope the later one has the greater
  number. -/
  declaration : Nat
  /-- The scope that the declaration stands in. -/
  scope : Nat
deriving Repr, DecidableEq, Inhabited

namespace Outline

/-- A declaration whose value is the call of a hook: its target and what the
hook is given. -/
def hookAt? (o : Outline) (settings : Settings) (i : Nat) : Option (Nat × List Nat) :=
  match o.kind? i with
  | some (.declaration target (some value)) =>
    match o.kind? value with
    | some (.call callee arguments) =>
      match o.nameOf? callee with
      | some name => if settings.isHook name then some (target, arguments) else none
      | none => none
    | _ => none
  | _ => none

/-- The node declares the result of a hook (`is_hook_declaration`). -/
def isHookDeclaration (o : Outline) (settings : Settings) (i : Nat) : Bool :=
  (o.hookAt? settings i).isSome

/-- The name under which a target keeps the look-up function of a hook. Where
the result is taken apart, it is the name of the first member that looks up
keys. -/
def accessorOf? (o : Outline) (settings : Settings) (target : Nat) : Option String :=
  match o.kind? target with
  | some (.name n) => some n
  | some (.pattern members) =>
    (members.find? fun m => settings.isAccessorKey m.key).bind (·.localName)
  | _ => none

/-- The binding that a node is, if it is one (`binding_at`). -/
def bindingAt? (o : Outline) (settings : Settings) (i : Nat) : Option Binding := do
  let (target, arguments) ← o.hookAt? settings i
  let accessor ← o.accessorOf? settings target
  let node ← o.nodes[i]?
  return {
    prefixKey := (arguments.head?.bind o.textOf?).getD ""
    accessor
    site := node.span.start
    declaration := i
    scope := o.enclosingScope i }

/-- All bindings, in the order of their declarations (`find_bindings`). -/
def bindings (o : Outline) (settings : Settings) : List Binding :=
  o.ids.filterMap (o.bindingAt? settings)

end Outline

end LocaleKeys
