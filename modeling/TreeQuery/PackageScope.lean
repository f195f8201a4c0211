import TreeQuery.Element

/-!
Type references in selectors and the scope that gives them a meaning.

A reference is a bare name, which lives in the package of the scope, or a package and a name with
a colon between them. A package that contains a slash is a path and must be the package of the
scope or the target of an alias; any other one is an alias.
-/

namespace TreeQuery

inductive ResolveError where
  | unknownPackage (package : String)
  | invalidReference (text : String)
  deriving DecidableEq, Repr

namespace ResolveError

def message : ResolveError → String
  | .unknownPackage package => "unknown package '" ++ package ++ "'"
  | .invalidReference text => "invalid type reference '" ++ text ++ "'"

end ResolveError

/-- The package that bare names belong to, and the aliases for other packages. -/
structure PackageScope where
  home : String
  aliases : List (String × String)
  deriving DecidableEq, Repr

namespace PackageScope

/-- The parts of a qualified reference before and after its only colon, neither of them empty. -/
def splitQualified? (text : String) : Option (String × String) :=
  let package := text.toList.takeWhile (· != ':')
  match text.toList.dropWhile (· != ':') with
  | [] => none
  | _ :: name =>
      if package.isEmpty || name.isEmpty || name.contains ':' then
        none
      else
        some (String.ofList package, String.ofList name)

/-- Whether a package path can be named in the scope. -/
def knows (scope : PackageScope) (package : String) : Bool :=
  package = scope.home || scope.aliases.any fun (_, target) => target = package

def resolve (scope : PackageScope) (text : String) : Except ResolveError TypeName :=
  if text.toList.contains '/' then
    match splitQualified? text with
    | none => .error (.invalidReference text)
    | some (package, name) =>
        if scope.knows package then .ok ⟨package, name⟩ else .error (.unknownPackage package)
  else if text.toList.contains ':' then
    match splitQualified? text with
    | none => .error (.invalidReference text)
    | some (nickname, name) =>
        match scope.aliases.lookup nickname with
        | none => .error (.unknownPackage nickname)
        | some package => .ok ⟨package, name⟩
  else if text.isEmpty then
    .error (.invalidReference text)
  else
    .ok ⟨scope.home, text⟩

end PackageScope

end TreeQuery
