import Packwright.Path.Virtual

/-!
# Module specifiers

A specifier is what an import names. A path is resolved inside the build; a bare name is a package,
and it is external unless it is built in the same session or is a helper that is bundled in.
-/

namespace Packwright.Specifier

def helperPackages : List String := ["tslib"]

/-- Whether the environment of the bundle has to supply a specifier; `names` are the packages that
the bundle takes in. -/
def isExternal (names : List String) (specifier : String) : Bool :=
  !Path.isSpecifier specifier && !helperPackages.contains specifier && !names.contains specifier

theorem isExternal_eq_false_of_mem {names : List String} {specifier : String}
    (h : specifier ∈ names) : isExternal names specifier = false := by
  simp [isExternal, h]

end Packwright.Specifier
