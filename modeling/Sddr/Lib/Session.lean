import Sddr.Lib.Steps
import Mathlib.Data.List.Basic

/-!
# Two programs over a connection

A program sends and receives in sequence. The connection is a reliable stream in each direction, and nothing times out,
so what is not there yet is waited for. In one step a program moves one element to or from a stream, so that a message
can be taken apart anywhere. The notes a program makes are for the reader only.
-/

namespace Sddr.Lib

/-- `recv got size next` has received `got` and still waits for `size` elements. -/
inductive Proc (α E R : Type) where
  | send (elements : List α) (next : Bool → Proc α E R)
  | recv (got : List α) (size : Nat) (next : Bool → List α → Proc α E R)
  | note (event : E) (next : Proc α E R)
  | crash
  | done (result : R)

variable {α E R S T : Type}

namespace Proc

def bind (p : Proc α E R) (f : R → Proc α E S) : Proc α E S :=
  match p with
  | send elements next => send elements fun success => (next success).bind f
  | recv got size next => recv got size fun success elements => (next success elements).bind f
  | note event next => note event (next.bind f)
  | crash => crash
  | done result => f result

instance : Monad (Proc α E) where
  pure := done
  bind := bind

/-! ## Steps of one program -/

/-- The program after a step, the notes it made, what it left of its input and what it added to its output. -/
structure Move (α E R : Type) where
  proc : Proc α E R
  events : List E
  input : List α
  output : List α

def move (input : List α) : Proc α E R → Option (Move α E R)
  | send [] next => some ⟨next true, [], input, []⟩
  | send (a :: elements) next => some ⟨send elements next, [], input, [a]⟩
  | recv got 0 next => some ⟨next true got, [], input, []⟩
  | recv got (size + 1) next =>
      match input with
      | [] => none
      | a :: rest => some ⟨recv (got ++ [a]) size next, [], rest, []⟩
  | note event next => some ⟨next, [event], input, []⟩
  | crash => none
  | done _ => none

/-- What arrives behind the input does not change a step. -/
theorem move_append {p : Proc α E R} {input : List α} {m : Move α E R} (h : p.move input = some m) (more : List α) :
    p.move (input ++ more) = some { m with input := m.input ++ more } := by
  cases p with
  | send elements next =>
      cases elements with
      | nil => cases h; rfl
      | cons a elements => cases h; rfl
  | recv got size next =>
      cases size with
      | zero => cases h; rfl
      | succ size =>
          cases input with
          | nil => cases h
          | cons a rest => cases h; rfl
  | note event next => cases h; rfl
  | crash => cases h
  | done result => cases h

theorem move_bind {p : Proc α E R} {input : List α} {m : Move α E R} (h : p.move input = some m) (f : R → Proc α E S) :
    (p >>= f).move input = some ⟨m.proc >>= f, m.events, m.input, m.output⟩ := by
  cases p with
  | send elements next =>
      cases elements with
      | nil => cases h; rfl
      | cons a elements => cases h; rfl
  | recv got size next =>
      cases size with
      | zero => cases h; rfl
      | succ size =>
          cases input with
          | nil => cases h
          | cons a rest => cases h; rfl
  | note event next => cases h; rfl
  | crash => cases h
  | done result => cases h

/-! ## Stretches of a program -/

/-- `p` takes in `input`, adds `output`, makes the notes `events` and is `q` then. -/
inductive Does : Proc α E R → List α → List α → List E → Proc α E R → Prop
  | refl {p} : Does p [] [] [] p
  | step {p p' q input output events} (taken written noted) : p.move taken = some ⟨p', noted, [], written⟩ →
      Does p' input output events q → Does p (taken ++ input) (written ++ output) (noted ++ events) q

variable {p q s : Proc α E R} {i i' o o' : List α} {e e' : List E}

theorem Does.trans (h : Does p i o e q) (h' : Does q i' o' e' s) : Does p (i ++ i') (o ++ o') (e ++ e') s := by
  induction h with
  | refl => exact h'
  | step taken written noted hmove _ ih =>
      simp only [List.append_assoc]
      exact .step taken written noted hmove (ih h')

theorem Does.bind (h : Does p i o e q) (f : R → Proc α E S) : Does (p >>= f) i o e (q >>= f) := by
  induction h with
  | refl => exact .refl
  | step taken written noted hmove _ ih => exact .step taken written noted (move_bind hmove f) ih

/-- What a program does before its result is handed on. -/
theorem Does.seq {result : R} (h : Does p i o e (pure result)) (f : R → Proc α E S) : Does (p >>= f) i o e (f result) :=
  h.bind f

theorem does_send (elements : List α) (next : Bool → Proc α E R) : Does (send elements next) [] elements [] (next true) := by
  induction elements with
  | nil => exact .step [] [] [] rfl .refl
  | cons a elements ih => exact .step [] [a] [] rfl ih

theorem does_recv (elements got : List α) (next : Bool → List α → Proc α E R) :
    Does (recv got elements.length next) elements [] [] (next true (got ++ elements)) := by
  induction elements generalizing got with
  | nil =>
      rw [List.append_nil]
      exact .step [] [] [] rfl .refl
  | cons a elements ih =>
      have hrest := ih (got ++ [a])
      rw [List.append_assoc] at hrest
      exact .step [a] [] [] rfl hrest

theorem does_note (event : E) (next : Proc α E R) : Does (note event next) [] [] [event] next :=
  .step [] [] [event] rfl .refl

end Proc

/-! ## Two programs -/

structure Net (α E R S : Type) where
  left : Proc α E R
  right : Proc α E S
  leftLog : List E
  rightLog : List E
  toLeft : List α
  toRight : List α

namespace Net

def goLeft (c : Net α E R S) (m : Proc.Move α E R) : Net α E R S :=
  { c with left := m.proc, leftLog := c.leftLog ++ m.events, toLeft := m.input, toRight := c.toRight ++ m.output }

def goRight (c : Net α E R S) (m : Proc.Move α E S) : Net α E R S :=
  { c with right := m.proc, rightLog := c.rightLog ++ m.events, toRight := m.input, toLeft := c.toLeft ++ m.output }

inductive Step : Net α E R S → Net α E R S → Prop
  | left {c m} : c.left.move c.toLeft = some m → Step c (c.goLeft m)
  | right {c m} : c.right.move c.toRight = some m → Step c (c.goRight m)

/-- The programs at the ends of empty streams. -/
def start (left : Proc α E R) (right : Proc α E S) : Net α E R S := ⟨left, right, [], [], [], []⟩

/-- Neither program hinders the other. -/
theorem left_right {c : Net α E R S} {m : Proc.Move α E R} {m' : Proc.Move α E S}
    (hm : c.left.move c.toLeft = some m) (hm' : c.right.move c.toRight = some m') :
    ∃ d, Step (c.goLeft m) d ∧ Step (c.goRight m') d := by
  have hright : Step (c.goLeft m) ((c.goLeft m).goRight { m' with input := m'.input ++ m.output }) :=
    .right (Proc.move_append hm' m.output)
  have hleft : Step (c.goRight m') ((c.goRight m').goLeft { m with input := m.input ++ m'.output }) :=
    .left (Proc.move_append hm m'.output)
  exact ⟨_, hright, hleft⟩

theorem diamond : Diamond (Step (α := α) (E := E) (R := R) (S := S)) := by
  intro a b c hb hc
  cases hb with
  | left hm =>
      cases hc with
      | left hm' =>
          cases hm.symm.trans hm'
          exact Or.inl rfl
      | right hm' => exact Or.inr (left_right hm hm')
  | right hm =>
      cases hc with
      | left hm' =>
          obtain ⟨d, hleft, hright⟩ := left_right hm' hm
          exact Or.inr ⟨d, hright, hleft⟩
      | right hm' =>
          cases hm.symm.trans hm'
          exact Or.inl rfl

theorem left_does {p q : Proc α E R} {i o : List α} {e : List E} (h : p.Does i o e q) (c : Net α E R S)
    (hp : c.left = p) (rest : List α) (hi : c.toLeft = i ++ rest) :
    Relation.ReflTransGen Step c
      { c with left := q, leftLog := c.leftLog ++ e, toLeft := rest, toRight := c.toRight ++ o } := by
  induction h generalizing c with
  | refl =>
      subst hp
      rw [List.nil_append] at hi
      subst hi
      simp only [List.append_nil]
      exact .refl
  | @step p p' q input output events taken written noted hmove _ ih =>
      subst hp
      have hfirst := Proc.move_append hmove (input ++ rest)
      rw [← List.append_assoc, ← hi] at hfirst
      have hrest := ih { c with
        left := p', leftLog := c.leftLog ++ noted, toLeft := input ++ rest, toRight := c.toRight ++ written } rfl rfl
      simp only [List.append_assoc] at hrest
      exact .head (.left hfirst) hrest

def swap (c : Net α E R S) : Net α E S R := ⟨c.right, c.left, c.rightLog, c.leftLog, c.toRight, c.toLeft⟩

theorem Step.swap {c d : Net α E R S} (h : Step c d) : Step c.swap d.swap := by
  cases h with
  | left hm => exact .right hm
  | right hm => exact .left hm

theorem right_does {p q : Proc α E S} {i o : List α} {e : List E} (h : p.Does i o e q) (c : Net α E R S)
    (hp : c.right = p) (rest : List α) (hi : c.toRight = i ++ rest) :
    Relation.ReflTransGen Step c
      { c with right := q, rightLog := c.rightLog ++ e, toRight := rest, toLeft := c.toLeft ++ o } := by
  have hswapped := left_does h c.swap hp rest hi
  exact hswapped.lift swap fun _ _ hstep => hstep.swap

/-- Notes are kept. -/
theorem logs_prefix {n : Nat} {c d : Net α E R S} (h : Steps Step n c d) :
    c.leftLog <+: d.leftLog ∧ c.rightLog <+: d.rightLog := by
  apply h.invariant (p := fun d => c.leftLog <+: d.leftLog ∧ c.rightLog <+: d.rightLog)
  · rintro a b hstep ⟨hl, hr⟩
    cases hstep with
    | left _ => exact ⟨hl.trans (List.prefix_append _ _), hr⟩
    | right _ => exact ⟨hl, hr.trans (List.prefix_append _ _)⟩
  · exact ⟨List.prefix_rfl, List.prefix_rfl⟩

/-- Nothing more happens once both programs are done. -/
theorem no_step {c : Net α E R S} {x : R} {y : S} (hl : c.left = .done x) (hr : c.right = .done y)
    (d : Net α E R S) : ¬ Step c d := by
  intro h
  cases h with
  | left hm => rw [hl] at hm; cases hm
  | right hm => rw [hr] at hm; cases hm

end Net

end Sddr.Lib
