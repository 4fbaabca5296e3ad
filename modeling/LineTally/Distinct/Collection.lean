import LineTally.Distinct.Representatives
import LineTally.Log.Event
import LineTally.Text.Transducer

/-!
# Collecting distinct files

The candidates are read one after the other. The first file with a content is handed on while it
is in memory; a later one with the same content and one that cannot be read are skipped. All of
them count towards the total.

What is done with a file that is handed on is up to the caller: a function from the file and the
caller's state to the next state, together with the events it causes.
-/

set_option autoImplicit false

namespace LineTally

/-- What has been collected: how many candidates there were, the representatives, and the state of
whoever gets the files. -/
structure Collection (σ : Type) where
  count : Nat
  kept : Representatives
  state : σ
  deriving Repr

namespace Collection

variable {σ : Type}

def start (s : σ) : Collection σ := ⟨0, .empty, s⟩

/-- One candidate more, and what happens with it. -/
def take (t : FileTree) (handle : Document → σ → σ × List Event) (c : Collection σ)
    (path : Path) : Collection σ × List Event :=
  match Document.read t path with
  | .error failure => ({ c with count := c.count + 1 }, [.unreadableFile failure])
  | .ok file =>
    match c.kept.insert file.fingerprint file.path with
    | (false, kept) => (⟨c.count + 1, kept, c.state⟩, [.duplicateContent file.path])
    | (true, kept) =>
      let (state, events) := handle file c.state
      (⟨c.count + 1, kept, state⟩, events)

/-- The machine that reads candidates; at the end it says how many it has seen and kept. -/
def collector (t : FileTree) (handle : Document → σ → σ × List Event) (s : σ) :
    Transducer (Collection σ) Path Event where
  start := start s
  step := take t handle
  finish c := [.collected c.count c.kept.size]

def collectWith (t : FileTree) (handle : Document → σ → σ × List Event) (s : σ)
    (candidates : List Path) : Collection σ × List Event :=
  let machine := collector t handle s
  let (c, events) := machine.feed machine.start candidates
  (c, events ++ machine.finish c)

def collect (t : FileTree) (candidates : List Path) : Collection Unit × List Event :=
  collectWith t (fun _ s => (s, [])) () candidates

end Collection

end LineTally
