/-!
# Transducers

A machine that reads letters one at a time and writes any number of letters at each step, and
some more when its input ends. Decoding bytes into characters, cutting a text into lines and
sorting lines into kinds are all of this shape, so the loop is written once, here, with an
accumulator: a file of any length is read in constant stack.

The equations `feed_nil`, `feed_cons` and `feed_append` say what the loop computes without
mentioning the accumulator; nothing else needs to unfold it.
-/

set_option autoImplicit false

namespace LineTally

/-- A letter-to-word machine: `step` reads one letter and says what is written at once, `finish`
says what is written when no letter is left. -/
structure Transducer (σ α β : Type) where
  start : σ
  step : σ → α → σ × List β
  finish : σ → List β

namespace Transducer

variable {σ α β : Type}

/-- The loop, with what has been written so far held back to front. -/
def feedOnto (m : Transducer σ α β) : σ → List β → List α → σ × List β
  | s, written, [] => (s, written.reverse)
  | s, written, x :: xs =>
    m.feedOnto (m.step s x).1 ((m.step s x).2.reverse ++ written) xs

/-- The state reached from `s` by reading `xs`, and all that is written on the way. -/
def feed (m : Transducer σ α β) (s : σ) (xs : List α) : σ × List β :=
  m.feedOnto s [] xs

/-- What is written for the whole input `xs`, the end of input included. -/
def run (m : Transducer σ α β) (xs : List α) : List β :=
  let (s, written) := m.feed m.start xs
  written ++ m.finish s

/-! ## The loop without its accumulator -/

theorem feedOnto_eq (m : Transducer σ α β) (s : σ) (written : List β) (xs : List α) :
    m.feedOnto s written xs = ((m.feed s xs).1, written.reverse ++ (m.feed s xs).2) := by
  induction xs generalizing s written with
  | nil => simp [feed, feedOnto]
  | cons x xs ih =>
    have h : m.feed s (x :: xs) =
        m.feedOnto (m.step s x).1 ((m.step s x).2.reverse ++ []) xs := rfl
    rw [feedOnto, ih, h, ih]
    simp

@[simp] theorem feed_nil (m : Transducer σ α β) (s : σ) : m.feed s [] = (s, []) := rfl

theorem feed_cons (m : Transducer σ α β) (s : σ) (x : α) (xs : List α) :
    m.feed s (x :: xs) =
      ((m.feed (m.step s x).1 xs).1, (m.step s x).2 ++ (m.feed (m.step s x).1 xs).2) := by
  have h : m.feed s (x :: xs) =
      m.feedOnto (m.step s x).1 ((m.step s x).2.reverse ++ []) xs := rfl
  rw [h, feedOnto_eq]
  simp

theorem feed_append (m : Transducer σ α β) (s : σ) (xs ys : List α) :
    m.feed s (xs ++ ys) =
      ((m.feed (m.feed s xs).1 ys).1, (m.feed s xs).2 ++ (m.feed (m.feed s xs).1 ys).2) := by
  induction xs generalizing s with
  | nil => simp
  | cons x xs ih => simp [feed_cons, ih]

/-- Machines that do the same with every letter of a word do the same with the word. -/
theorem feed_congr {m m' : Transducer σ α β} {s : σ} {xs : List α}
    (h : ∀ s, ∀ x ∈ xs, m.step s x = m'.step s x) : m.feed s xs = m'.feed s xs := by
  induction xs generalizing s with
  | nil => rfl
  | cons x xs ih =>
    rw [feed_cons, feed_cons, h s x List.mem_cons_self,
      ih fun s y hy => h s y (List.mem_cons_of_mem x hy)]

/-- A machine that does with the image of every state what another does with the state writes the
same, and ends in the image of its end. -/
theorem feed_image {τ : Type} {m : Transducer σ α β} {m' : Transducer τ α β} {image : σ → τ}
    (h : ∀ s x, m'.step (image s) x = (image (m.step s x).1, (m.step s x).2)) (s : σ) (xs : List α) :
    m'.feed (image s) xs = (image (m.feed s xs).1, (m.feed s xs).2) := by
  induction xs generalizing s with
  | nil => rfl
  | cons x xs ih => rw [feed_cons, feed_cons, h, ih]

theorem run_eq (m : Transducer σ α β) (xs : List α) :
    m.run xs = (m.feed m.start xs).2 ++ m.finish (m.feed m.start xs).1 := rfl

end Transducer

end LineTally
