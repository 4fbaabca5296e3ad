import LineTally.Log.Directive
import LineTally.Text.Separated

/-!
# Which events are logged

A log filter is a list of directives, joined by commas. Of the directives that apply to an event the
most specific one decides about it: the one with the longest target, then one that asks for a field
rather than one that does not. Of several that are equally specific the last one decides. Where none
applies, nothing is logged.

A filter that is not given or cannot be read asks for warnings only; no event is one.
-/

set_option autoImplicit false

namespace LineTally

structure LogFilter where
  directives : List Directive
  deriving DecidableEq, Repr

namespace LogFilter

def standard : LogFilter := ⟨[⟨[], .events none, .warn⟩]⟩

/-- The filter that a text is. Empty pieces are passed over. -/
def ofText? (text : List Char) : Option LogFilter :=
  (((separated ',' text).filter fun piece => !piece.isEmpty).mapM Directive.ofText?).map
    LogFilter.mk

/-- The filter that is asked for, by bytes that may be missing. -/
def ofSetting (setting : Option Bytes) : LogFilter :=
  ((setting.bind Utf8.decode?).bind ofText?).getD standard

/-- The directive that decides about an event, if any applies. -/
def deciding? (f : LogFilter) (e : Event) : Option Directive :=
  (f.directives.filter fun d => d.appliesTo e).foldl (fun best d =>
    if best.all fun b => b.yieldsTo d then some d else best) none

def passes (f : LogFilter) (e : Event) : Bool :=
  (f.deciding? e).any fun d => d.level.includesDebug

end LogFilter

end LineTally
