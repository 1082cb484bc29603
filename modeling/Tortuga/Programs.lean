import Mathlib.Logic.Relation

/-!
Programs that talk to their surroundings. A program is a tree of requests, each
continued by every answer the surroundings may give, with its loops kept as loops.
`Run` gives the traces of a program, `wp` is a program logic that watches a trace
through a monitor, and `exec` runs a program against surroundings that are a function.
-/
namespace Tortuga.Programs
set_option linter.unusedSimpArgs false

/-- A program whose requests `o : Op` are answered in `Ans o` and whose loops carry
    names. `fault` is a step without a meaning, such as a read outside an array. -/
inductive Prog (Op : Type) (Ans : Op → Type) (Loop : Type) : Type → Type 1 where
  | ret {α : Type} (a : α) : Prog Op Ans Loop α
  | fault {α : Type} : Prog Op Ans Loop α
  | ask {α : Type} (o : Op) (k : Ans o → Prog Op Ans Loop α) : Prog Op Ans Loop α
  | loop {α σ β : Type} (l : Loop) (x : σ) (body : σ → Prog Op Ans Loop (σ ⊕ β))
      (k : β → Prog Op Ans Loop α) : Prog Op Ans Loop α

/-- What a run shows: a request with its answer, the start of an iteration of a loop,
    or something the surroundings do on their own. -/
inductive Event (Op : Type) (Ans : Op → Type) (Loop Ext : Type) where
  | call (o : Op) (a : Ans o)
  | iter (l : Loop)
  | ext (e : Ext)

section
variable {Op : Type} {Ans : Op → Type} {Loop Ext : Type} {α β γ σ : Type}

namespace Prog

/-- One program after another. -/
def bind {α β : Type} : Prog Op Ans Loop α → (α → Prog Op Ans Loop β) → Prog Op Ans Loop β
  | .ret a, f => f a
  | .fault, _ => .fault
  | .ask o k, f => .ask o (fun a => (k a).bind f)
  | .loop l x body k, f => .loop l x body (fun b => (k b).bind f)

instance : Monad (Prog Op Ans Loop) where
  pure := .ret
  bind := bind

@[simp] theorem pure_eq (a : α) : (pure a : Prog Op Ans Loop α) = .ret a := rfl
@[simp] theorem bind_eq (p : Prog Op Ans Loop α) (f : α → Prog Op Ans Loop β) : p >>= f = p.bind f := rfl
@[simp] theorem ret_bind (a : α) (f : α → Prog Op Ans Loop β) : (ret a).bind f = f a := rfl
@[simp] theorem fault_bind (f : α → Prog Op Ans Loop β) : (fault : Prog Op Ans Loop α).bind f = .fault := rfl
@[simp] theorem ask_bind (o : Op) (k : Ans o → Prog Op Ans Loop α) (f : α → Prog Op Ans Loop β) :
    (ask o k).bind f = .ask o (fun a => (k a).bind f) := rfl
@[simp] theorem loop_bind {τ δ : Type} (l : Loop) (x : τ) (body : τ → Prog Op Ans Loop (τ ⊕ δ))
    (k : δ → Prog Op Ans Loop α) (f : α → Prog Op Ans Loop β) :
    (loop l x body k).bind f = .loop l x body (fun b => (k b).bind f) := rfl

@[simp] theorem bind_ret (p : Prog Op Ans Loop α) : p.bind ret = p := by
  induction p with
  | ret a => rfl
  | fault => rfl
  | ask o k ih => simp only [ask_bind, ih]
  | loop l x body k _ ih => simp only [loop_bind, ih]

theorem bind_assoc (p : Prog Op Ans Loop α) (f : α → Prog Op Ans Loop β) (g : β → Prog Op Ans Loop γ) :
    (p.bind f).bind g = p.bind (fun a => (f a).bind g) := by
  induction p with
  | ret a => rfl
  | fault => rfl
  | ask o k ih => simp only [ask_bind, ih]
  | loop l x body k _ ih => simp only [loop_bind, ih]

instance : LawfulMonad (Prog Op Ans Loop) :=
  LawfulMonad.mk' (Prog Op Ans Loop)
    (fun p => bind_ret p)
    (fun _ _ => rfl)
    (fun p f g => bind_assoc p f g)

/-- A loop after the iteration that starts at `x`. -/
def unroll (l : Loop) (body : σ → Prog Op Ans Loop (σ ⊕ β)) (k : β → Prog Op Ans Loop α) (x : σ) :
    Prog Op Ans Loop α :=
  (body x).bind (fun
    | .inl next => .loop l next body k
    | .inr b => k b)

end Prog

open Prog

/-! ### Runs -/

/-- One step of a program and what it shows. The surroundings act at any time. -/
inductive Step : Prog Op Ans Loop α → Event Op Ans Loop Ext → Prog Op Ans Loop α → Prop where
  | ask (o : Op) (k : Ans o → Prog Op Ans Loop α) (a : Ans o) : Step (.ask o k) (.call o a) (k a)
  | loop {σ β : Type} (l : Loop) (x : σ) (body : σ → Prog Op Ans Loop (σ ⊕ β)) (k : β → Prog Op Ans Loop α) :
      Step (.loop l x body k) (.iter l) (unroll l body k x)
  | ext (p : Prog Op Ans Loop α) (e : Ext) : Step p (.ext e) p

/-- `Run p tr q`: the program `p` can show the trace `tr` and is then at `q`. -/
inductive Run : Prog Op Ans Loop α → List (Event Op Ans Loop Ext) → Prog Op Ans Loop α → Prop where
  | done (p : Prog Op Ans Loop α) : Run p [] p
  | step {p q r : Prog Op Ans Loop α} {e : Event Op Ans Loop Ext} {tr : List (Event Op Ans Loop Ext)} :
      Step p e q → Run q tr r → Run p (e :: tr) r

theorem Run.append {p q r : Prog Op Ans Loop α} {xs ys : List (Event Op Ans Loop Ext)}
    (first : Run p xs q) (rest : Run q ys r) : Run p (xs ++ ys) r := by
  induction first with
  | done p => exact rest
  | step s _ ih => exact .step s (ih rest)

/-- A run of a first program is a run of the whole. -/
theorem Run.bind {p q : Prog Op Ans Loop α} {tr : List (Event Op Ans Loop Ext)} (run : Run p tr q)
    (f : α → Prog Op Ans Loop β) : Run (p.bind f) tr (q.bind f) := by
  induction run with
  | done p => exact .done _
  | step s _ ih =>
    refine .step ?_ ih
    cases s with
    | ask o k a => exact .ask o _ a
    | loop l x body k =>
      have moved : Step _ (.iter l : Event Op Ans Loop Ext) _ := .loop l x body (fun b => (k b).bind f)
      have same : unroll l body (fun b => (k b).bind f) x = (unroll l body k x).bind f := by
        simp only [unroll, bind_assoc]
        congr 1
        funext r
        cases r <;> rfl
      rwa [same] at moved
    | ext p e => exact .ext _ e

/-- What happens after a part of a program is a run of that part, or of all of it and
    then of the rest. -/
theorem Run.of_bind {p : Prog Op Ans Loop α} {f : α → Prog Op Ans Loop β} {q : Prog Op Ans Loop β}
    {tr : List (Event Op Ans Loop Ext)} (run : Run (p.bind f) tr q) :
    (∃ p', Run p tr p' ∧ q = p'.bind f) ∨ ∃ a xs ys, tr = xs ++ ys ∧ Run p xs (.ret a) ∧ Run (f a) ys q := by
  generalize whole : p.bind f = r at run
  induction run generalizing p with
  | done r => exact .inl ⟨p, .done p, whole.symm⟩
  | @step r r' q e tr step rest ih =>
    -- The first step is one of `p`, unless `p` has come to its end.
    have moved (p' : Prog Op Ans Loop α) (first : Step p e p') (same : p'.bind f = r') :
        (∃ p', Run p (e :: tr) p' ∧ q = p'.bind f) ∨
          ∃ a xs ys, e :: tr = xs ++ ys ∧ Run p xs (.ret a) ∧ Run (f a) ys q := by
      rcases ih same with ⟨p'', run, final⟩ | ⟨a, xs, ys, split, run, later⟩
      · exact .inl ⟨p'', .step first run, final⟩
      · exact .inr ⟨a, e :: xs, ys, by rw [split, List.cons_append], .step first run, later⟩
    subst whole
    cases p with
    | ret a => exact .inr ⟨a, [], e :: tr, rfl, .done _, .step step rest⟩
    | fault =>
      cases step with
      | ext p e => exact moved .fault (.ext _ e) rfl
    | ask o k =>
      cases step with
      | ask o k' a => exact moved (k a) (.ask o k a) rfl
      | ext p e => exact moved (.ask o k) (.ext _ e) rfl
    | loop l x body k =>
      cases step with
      | loop =>
        refine moved (unroll l body k x) (.loop l x body k) ?_
        simp only [unroll, Prog.bind_assoc]
        congr 1
        funext r
        cases r <;> rfl
      | ext p e => exact moved (.loop l x body k) (.ext _ e) rfl

/-- A fault is one of the first part, or of the rest after it. -/
theorem Run.fault_of_bind {p : Prog Op Ans Loop α} {f : α → Prog Op Ans Loop β} {tr : List (Event Op Ans Loop Ext)}
    (run : Run (p.bind f) tr .fault) :
    Run p tr .fault ∨ ∃ a xs ys, tr = xs ++ ys ∧ Run p xs (.ret a) ∧ Run (f a) ys .fault := by
  rcases Run.of_bind run with ⟨p', run, final⟩ | later
  · cases p' with
    | ret a => exact .inr ⟨a, tr, [], (List.append_nil tr).symm, run, final ▸ .done _⟩
    | fault => exact .inl run
    | ask o k => contradiction
    | loop l x body k => contradiction
  · exact .inr later

/-- The residual program after a trace, when the program can show it. -/
def follow [DecidableEq Op] [DecidableEq Loop] :
    Prog Op Ans Loop α → List (Event Op Ans Loop Ext) → Option (Prog Op Ans Loop α)
  | p, [] => some p
  | p, .ext _ :: tr => follow p tr
  | .ask o k, .call o' a :: tr => if h : o' = o then follow (k (h ▸ a)) tr else none
  | .loop l x body k, .iter l' :: tr => if l' = l then follow (unroll l body k x) tr else none
  | _, _ => none

theorem follow_run [DecidableEq Op] [DecidableEq Loop] (p q : Prog Op Ans Loop α)
    (tr : List (Event Op Ans Loop Ext)) (followed : follow p tr = some q) : Run p tr q := by
  induction tr generalizing p with
  | nil =>
    simp only [follow, Option.some.injEq] at followed
    exact followed ▸ .done p
  | cons e tr ih =>
    cases e with
    | ext e =>
      rw [follow] at followed
      exact .step (.ext p e) (ih p followed)
    | call o' a =>
      cases p with
      | ask o k =>
        rw [follow] at followed
        split at followed
        case isTrue same => subst same; exact .step (.ask o' k a) (ih _ followed)
        case isFalse => contradiction
      | ret | fault | loop => simp [follow] at followed
    | iter l' =>
      cases p with
      | loop l x body k =>
        rw [follow] at followed
        split at followed
        case isTrue same => subst same; exact .step (.loop l' x body k) (ih _ followed)
        case isFalse => contradiction
      | ret | fault | ask => simp [follow] at followed

theorem Run.followed [DecidableEq Op] [DecidableEq Loop] {p q : Prog Op Ans Loop α}
    {tr : List (Event Op Ans Loop Ext)} (run : Run p tr q) : follow p tr = some q := by
  induction run with
  | done p => cases p <;> rfl
  | step step _ ih =>
    cases step with
    | ask o k a => simpa [follow] using ih
    | loop l x body k => simpa [follow] using ih
    | ext p e => simpa [follow] using ih

/-- A trace that can be followed is the trace of a run. -/
theorem run_of_follow [DecidableEq Op] [DecidableEq Loop] (p : Prog Op Ans Loop α)
    (tr : List (Event Op Ans Loop Ext)) (followed : (follow p tr).isSome = true) : ∃ q, Run p tr q := by
  obtain ⟨q, found⟩ := Option.isSome_iff_exists.mp followed
  exact ⟨q, follow_run p q tr found⟩

/-! ### Watching a run -/

/-- An automaton that reads a trace. `allows` says which events are assumed possible
    in a state, `demands` what is to be shown of an event, and `faults` in which states
    a program may come to a step without a meaning. -/
structure Monitor (Op : Type) (Ans : Op → Type) (Loop Ext S : Type) where
  next : S → Event Op Ans Loop Ext → S
  allows : S → Event Op Ans Loop Ext → Prop
  demands : S → Event Op Ans Loop Ext → Prop
  faults : S → Prop

variable {S : Type} (M : Monitor Op Ans Loop Ext S)

/-- The state after a trace. -/
def Monitor.after (s : S) (tr : List (Event Op Ans Loop Ext)) : S := tr.foldl M.next s

/-- `P` holds of every event of a trace in the state that the event finds. -/
def Monitor.Along (P : S → Event Op Ans Loop Ext → Prop) : S → List (Event Op Ans Loop Ext) → Prop
  | _, [] => True
  | s, e :: tr => P s e ∧ Monitor.Along P (M.next s e) tr

instance alongDecidable (P : S → Event Op Ans Loop Ext → Prop) [∀ s e, Decidable (P s e)] :
    ∀ (s : S) (tr : List (Event Op Ans Loop Ext)), Decidable (M.Along P s tr)
  | _, [] => isTrue trivial
  | s, e :: tr => @instDecidableAnd _ _ _ (alongDecidable P (M.next s e) tr)

/-- What the surroundings can make of a state on their own. -/
def Monitor.Rely : S → S → Prop :=
  Relation.ReflTransGen (fun s t => ∃ e, M.allows s (.ext e) ∧ t = M.next s (.ext e))

/-- The event is one of the program's, not of the surroundings. -/
def Event.Own : Event Op Ans Loop Ext → Prop
  | .ext _ => False
  | _ => True

theorem Monitor.after_append (s : S) (xs ys : List (Event Op Ans Loop Ext)) :
    M.after s (xs ++ ys) = M.after (M.after s xs) ys := List.foldl_append

theorem Monitor.along_append {P : S → Event Op Ans Loop Ext → Prop} (s : S)
    (xs ys : List (Event Op Ans Loop Ext)) :
    M.Along P s (xs ++ ys) ↔ M.Along P s xs ∧ M.Along P (M.after s xs) ys := by
  induction xs generalizing s with
  | nil => simp [Monitor.Along, Monitor.after]
  | cons e xs ih => simp [Monitor.Along, Monitor.after, ih, and_assoc]

theorem Monitor.along_mono {P Q : S → Event Op Ans Loop Ext → Prop} {s : S} {tr : List (Event Op Ans Loop Ext)}
    (weaker : ∀ t e, P t e → Q t e) (along : M.Along P s tr) : M.Along Q s tr := by
  induction tr generalizing s with
  | nil => trivial
  | cons e tr ih => exact ⟨weaker s e along.1, ih along.2⟩

theorem Monitor.along_of_all {P : S → Event Op Ans Loop Ext → Prop} (all : ∀ s e, P s e) (s : S)
    (tr : List (Event Op Ans Loop Ext)) : M.Along P s tr := by
  induction tr generalizing s with
  | nil => trivial
  | cons e tr ih => exact ⟨all s e, ih (M.next s e)⟩

theorem Monitor.along_of_forall {P : Event Op Ans Loop Ext → Prop} (s : S) {tr : List (Event Op Ans Loop Ext)}
    (all : ∀ e ∈ tr, P e) : M.Along (fun _ => P) s tr := by
  induction tr generalizing s with
  | nil => trivial
  | cons e tr ih => exact ⟨all e List.mem_cons_self, ih (M.next s e) fun e later => all e (List.mem_cons_of_mem _ later)⟩

/-- An invariant that each event keeps of which `P` holds. -/
theorem Monitor.after_invariant {P : S → Event Op Ans Loop Ext → Prop} {I : S → Prop}
    (keeps : ∀ t e, I t → P t e → I (M.next t e)) {s : S} {tr : List (Event Op Ans Loop Ext)} (inv : I s) (along : M.Along P s tr) :
    I (M.after s tr) := by
  induction tr generalizing s with
  | nil => exact inv
  | cons e tr ih => exact ih (keeps s e inv along.1) along.2

theorem Monitor.along_and {P Q : S → Event Op Ans Loop Ext → Prop} {s : S} {tr : List (Event Op Ans Loop Ext)}
    (left : M.Along P s tr) (right : M.Along Q s tr) : M.Along (fun t e => P t e ∧ Q t e) s tr := by
  induction tr generalizing s with
  | nil => trivial
  | cons e tr ih => exact ⟨⟨left.1, right.1⟩, ih left.2 right.2⟩

/-- What one automaton sees of the states of another. -/
theorem Monitor.along_view {T : Type} {N : Monitor Op Ans Loop Ext T} {view : S → T}
    (same : ∀ s e, view (M.next s e) = N.next (view s) e) {P : T → Event Op Ans Loop Ext → Prop} {s : S}
    {tr : List (Event Op Ans Loop Ext)} (along : N.Along P (view s) tr) : M.Along (fun t e => P (view t) e) s tr := by
  induction tr generalizing s with
  | nil => trivial
  | cons e tr ih => exact ⟨along.1, ih (same s e ▸ along.2)⟩

theorem Monitor.after_view {T : Type} {N : Monitor Op Ans Loop Ext T} {view : S → T}
    (same : ∀ s e, view (M.next s e) = N.next (view s) e) (s : S) (tr : List (Event Op Ans Loop Ext)) :
    view (M.after s tr) = N.after (view s) tr := by
  induction tr generalizing s with
  | nil => rfl
  | cons e tr ih =>
    calc view (M.after (M.next s e) tr) = N.after (view (M.next s e)) tr := ih (M.next s e)
      _ = N.after (N.next (view s) e) tr := by rw [same]

/-- Two properties that agree wherever an invariant holds hold along the same traces. -/
theorem Monitor.along_congr {P Q : S → Event Op Ans Loop Ext → Prop} {I : S → Prop}
    (keeps : ∀ t e, I t → I (M.next t e)) (same : ∀ t e, I t → (P t e ↔ Q t e)) {s : S} (inv : I s)
    (tr : List (Event Op Ans Loop Ext)) : M.Along P s tr ↔ M.Along Q s tr := by
  induction tr generalizing s with
  | nil => exact Iff.rfl
  | cons e tr ih => exact and_congr (same s e inv) (ih (keeps s e inv))

/-- What holds along a trace holds of each of its events. -/
theorem Monitor.along_at {P : S → Event Op Ans Loop Ext → Prop} {s : S}
    {xs ys : List (Event Op Ans Loop Ext)} {e : Event Op Ans Loop Ext} (along : M.Along P s (xs ++ e :: ys)) :
    P (M.after s xs) e := ((M.along_append s xs (e :: ys)).mp along).2.1

/-- Every state the program can be in from `s` meets the demands of the monitor on
    what it shows, and `Q` holds when it returns. A loop needs an invariant. -/
def wp {α : Type} : Prog Op Ans Loop α → (α → S → Prop) → S → Prop
  | .ret a, Q, s => ∀ t, M.Rely s t → Q a t
  | .fault, _, s => ∀ t, M.Rely s t → M.faults t
  | .ask o k, Q, s => ∀ t, M.Rely s t → ∀ a, M.allows t (.call o a) →
      M.demands t (.call o a) ∧ wp (k a) Q (M.next t (.call o a))
  | @Prog.loop _ _ _ _ σ _ l x body k, Q, s => ∀ t, M.Rely s t → ∃ J : σ → S → Prop, J x t ∧
      ∀ y u, J y u → ∀ v, M.Rely u v → M.allows v (.iter l) → M.demands v (.iter l) ∧
        wp (body y) (fun r w => match r with
          | .inl z => J z w
          | .inr b => wp (k b) Q w) (M.next v (.iter l))

variable {M}

theorem wp_mono {p : Prog Op Ans Loop α} {Q R : α → S → Prop} {s : S} (weaker : ∀ a t, Q a t → R a t)
    (holds : wp M p Q s) : wp M p R s := by
  induction p generalizing s with
  | ret a => exact fun t rely => weaker a t (holds t rely)
  | fault => exact holds
  | ask o k ih => exact fun t rely a allowed => ⟨(holds t rely a allowed).1, ih a weaker (holds t rely a allowed).2⟩
  | loop l x body k ihBody ihK =>
    intro t rely
    obtain ⟨J, start, keeps⟩ := holds t rely
    refine ⟨J, start, fun y u inv v later allowed => ?_⟩
    obtain ⟨demanded, rest⟩ := keeps y u inv v later allowed
    refine ⟨demanded, ihBody y ?_ rest⟩
    rintro (z | b) w post
    · exact post
    · exact ihK b weaker post

/-- What the surroundings do does not matter to a program that has not moved. -/
theorem wp_stable {p : Prog Op Ans Loop α} {Q : α → S → Prop} {s t : S} (rely : M.Rely s t)
    (holds : wp M p Q s) : wp M p Q t := by
  cases p with
  | ret a => exact fun u later => holds u (rely.trans later)
  | fault => exact fun u later => holds u (rely.trans later)
  | ask o k => exact fun u later => holds u (rely.trans later)
  | loop l x body k => exact fun u later => holds u (rely.trans later)

theorem wp_bind {p : Prog Op Ans Loop α} {f : α → Prog Op Ans Loop β} {Q : β → S → Prop} {s : S}
    (holds : wp M p (fun a t => wp M (f a) Q t) s) : wp M (p.bind f) Q s := by
  induction p generalizing s with
  | ret a => exact holds s .refl
  | fault => exact holds
  | ask o k ih => exact fun t rely a allowed => ⟨(holds t rely a allowed).1, ih a (holds t rely a allowed).2⟩
  | loop l x body k _ ih =>
    intro t rely
    obtain ⟨J, start, keeps⟩ := holds t rely
    refine ⟨J, start, fun y u inv v later allowed => ?_⟩
    obtain ⟨demanded, rest⟩ := keeps y u inv v later allowed
    refine ⟨demanded, wp_mono ?_ rest⟩
    rintro (z | b) w post
    · exact post
    · exact ih b post

/-- From the invariant of a loop, the rest of the loop after one iteration. -/
theorem wp_unroll {l : Loop} {x : σ} {body : σ → Prog Op Ans Loop (σ ⊕ β)} {k : β → Prog Op Ans Loop α}
    {Q : α → S → Prop} {s : S} (holds : wp M (.loop l x body k) Q s) (allowed : M.allows s (.iter l)) :
    M.demands s (.iter l) ∧ wp M (unroll l body k x) Q (M.next s (.iter l)) := by
  obtain ⟨J, start, keeps⟩ := holds s .refl
  obtain ⟨demanded, rest⟩ := keeps x s start s .refl allowed
  refine ⟨demanded, wp_bind (wp_mono ?_ rest)⟩
  rintro (z | b) w post
  · intro t rely
    refine ⟨fun y u => ∃ u₀, J y u₀ ∧ M.Rely u₀ u, ⟨w, post, rely⟩, ?_⟩
    rintro y u ⟨u₀, inv, before⟩ v later allowed
    obtain ⟨demanded, rest⟩ := keeps y u₀ inv v (before.trans later) allowed
    refine ⟨demanded, wp_mono ?_ rest⟩
    rintro (z | b) w post
    · exact ⟨w, post, .refl⟩
    · exact post
  · exact post

theorem wp_step {p q : Prog Op Ans Loop α} {Q : α → S → Prop} {s : S} {e : Event Op Ans Loop Ext}
    (step : Step p e q) (allowed : M.allows s e) (holds : wp M p Q s) :
    (e.Own → M.demands s e) ∧ wp M q Q (M.next s e) := by
  cases step with
  | ask o k a => exact ⟨fun _ => (holds s .refl a allowed).1, (holds s .refl a allowed).2⟩
  | loop l x body k => exact ⟨fun _ => (wp_unroll holds allowed).1, (wp_unroll holds allowed).2⟩
  | ext p e => exact ⟨False.elim, wp_stable (.single ⟨e, allowed, rfl⟩) holds⟩

/-- In a run whose events are all allowed, every event of the program meets the
    demands, and the rest of the program meets its own. -/
theorem wp_run {p q : Prog Op Ans Loop α} {Q : α → S → Prop} {s : S} {tr : List (Event Op Ans Loop Ext)}
    (run : Run p tr q) (allowed : M.Along M.allows s tr) (holds : wp M p Q s) :
    M.Along (fun t e => e.Own → M.demands t e) s tr ∧ wp M q Q (M.after s tr) := by
  induction run generalizing s with
  | done p => exact ⟨trivial, holds⟩
  | step step _ ih =>
    obtain ⟨demanded, rest⟩ := wp_step step allowed.1 holds
    obtain ⟨demandedLater, later⟩ := ih allowed.2 rest
    exact ⟨⟨demanded, demandedLater⟩, later⟩

/-! ### Programs that keep an invariant -/

/-- From a state with `I` the program meets the demands and leaves a state with `I`. -/
def Keeps (M : Monitor Op Ans Loop Ext S) (I : S → Prop) (p : Prog Op Ans Loop α) : Prop :=
  ∀ s, I s → wp M p (fun _ => I) s

/-- From a state with `I` the program meets the demands and leaves a state with `J`. -/
def Leads (M : Monitor Op Ans Loop Ext S) (I J : S → Prop) (p : Prog Op Ans Loop α) : Prop :=
  ∀ s, I s → wp M p (fun _ => J) s

theorem Leads.bind {I J K : S → Prop} {p : Prog Op Ans Loop α} {f : α → Prog Op Ans Loop β} (first : Leads M I J p)
    (rest : ∀ a, Leads M J K (f a)) : Leads M I K (p.bind f) :=
  fun s inv => wp_bind (wp_mono (fun a t kept => rest a t kept) (first s inv))

/-- The surroundings keep `I` on their own. -/
def Stable (M : Monitor Op Ans Loop Ext S) (I : S → Prop) : Prop :=
  ∀ s e, I s → M.allows s (.ext e) → I (M.next s (.ext e))

theorem Stable.rely {I : S → Prop} (stable : Stable M I) {s t : S} (rely : M.Rely s t) (inv : I s) : I t := by
  induction rely with
  | refl => exact inv
  | tail _ last ih =>
    obtain ⟨e, allowed, rfl⟩ := last
    exact stable _ e ih allowed

theorem Stable.and {I J : S → Prop} (left : Stable M I) (right : Stable M J) : Stable M (fun s => I s ∧ J s) :=
  fun s e inv allowed => ⟨left s e inv.1 allowed, right s e inv.2 allowed⟩

/-- A request in a state with `I`. -/
theorem wp_ask {I : S → Prop} (stable : Stable M I) {o : Op} {k : Ans o → Prog Op Ans Loop α} {Q : α → S → Prop} {s : S}
    (inv : I s) (event : ∀ t a, I t → M.allows t (.call o a) →
      M.demands t (.call o a) ∧ wp M (k a) Q (M.next t (.call o a))) : wp M (.ask o k) Q s :=
  fun t rely a allowed => event t a (stable.rely rely inv) allowed

/-- The surroundings change nothing. -/
def Still (M : Monitor Op Ans Loop Ext S) : Prop := ∀ s e, M.allows s (.ext e) → M.next s (.ext e) = s

section
variable (still : Still M) {s : S}
include still

theorem Still.rely_eq {t : S} (rely : M.Rely s t) : t = s := by
  have stays : Stable M (fun u => u = s) := fun u e same allowed => (still u e allowed).trans same
  exact stays.rely rely rfl

theorem Still.ret {a : α} {Q : α → S → Prop} (post : Q a s) : wp M (.ret a) Q s := by
  intro t rely
  rw [still.rely_eq rely]
  exact post

theorem Still.ask {o : Op} {k : Ans o → Prog Op Ans Loop α} {Q : α → S → Prop}
    (event : ∀ a, M.allows s (.call o a) → M.demands s (.call o a) ∧ wp M (k a) Q (M.next s (.call o a))) : wp M (.ask o k) Q s := by
  intro t rely
  rw [still.rely_eq rely]
  exact event

/-- A loop with an invariant of what it carries and of the state. -/
theorem Still.loop {l : Loop} {x : σ} {body : σ → Prog Op Ans Loop (σ ⊕ β)} {k : β → Prog Op Ans Loop α} {Q : α → S → Prop}
    (J : σ → S → Prop) (start : J x s) (round : ∀ y u, J y u → M.allows u (.iter l) → M.demands u (.iter l) ∧
      wp M (body y) (fun r v => match r with
        | .inl z => J z v
        | .inr b => wp M (k b) Q v) (M.next u (.iter l))) : wp M (.loop l x body k) Q s := by
  intro t rely
  rw [still.rely_eq rely]
  refine ⟨J, start, fun y u inv v later allowed => ?_⟩
  rw [still.rely_eq later] at allowed ⊢
  obtain ⟨demanded, rest⟩ := round y u inv allowed
  refine ⟨demanded, wp_mono ?_ rest⟩
  rintro (z | b) w post
  · exact post
  · exact post

end

theorem Keeps.bind {I : S → Prop} {p : Prog Op Ans Loop α} {f : α → Prog Op Ans Loop β} (first : Keeps M I p)
    (rest : ∀ a, Keeps M I (f a)) : Keeps M I (p.bind f) :=
  fun s inv => wp_bind (wp_mono (fun a t kept => rest a t kept) (first s inv))

section
variable {I : S → Prop} (stable : Stable M I)
include stable

theorem Keeps.ret (a : α) : Keeps M I (.ret a : Prog Op Ans Loop α) :=
  fun _ inv _ rely => stable.rely rely inv

theorem Keeps.ask {o : Op} {k : Ans o → Prog Op Ans Loop α}
    (event : ∀ s a, I s → M.allows s (.call o a) → M.demands s (.call o a) ∧ I (M.next s (.call o a)))
    (rest : ∀ a, Keeps M I (k a)) : Keeps M I (.ask o k) := by
  intro s inv t rely a allowed
  obtain ⟨demanded, kept⟩ := event t a (stable.rely rely inv) allowed
  exact ⟨demanded, rest a _ kept⟩

/-- A loop whose iterations start in states with `B` and end in states with `I`. -/
theorem Keeps.loopFrom {B : S → Prop} {l : Loop} {x : σ} {body : σ → Prog Op Ans Loop (σ ⊕ β)}
    {k : β → Prog Op Ans Loop α}
    (event : ∀ s, I s → M.allows s (.iter l) → M.demands s (.iter l) ∧ B (M.next s (.iter l)))
    (iteration : ∀ y s, B s → wp M (body y) (fun _ => I) s) (rest : ∀ b, Keeps M I (k b)) :
    Keeps M I (.loop l x body k) := by
  intro s inv t rely
  refine ⟨fun _ => I, stable.rely rely inv, fun y u kept v later allowed => ?_⟩
  obtain ⟨demanded, next⟩ := event v (stable.rely later kept) allowed
  refine ⟨demanded, wp_mono ?_ (iteration y _ next)⟩
  rintro (z | b) w kept
  · exact kept
  · exact rest b w kept

theorem Keeps.loop {l : Loop} {x : σ} {body : σ → Prog Op Ans Loop (σ ⊕ β)} {k : β → Prog Op Ans Loop α}
    (event : ∀ s, I s → M.allows s (.iter l) → M.demands s (.iter l) ∧ I (M.next s (.iter l)))
    (iteration : ∀ y, Keeps M I (body y)) (rest : ∀ b, Keeps M I (k b)) : Keeps M I (.loop l x body k) :=
  .loopFrom stable event iteration rest

end

/-- In every run with allowed events, a program that keeps `I` meets the demands. -/
theorem Keeps.run {I : S → Prop} {p q : Prog Op Ans Loop α} {s : S} {tr : List (Event Op Ans Loop Ext)}
    (keeps : Keeps M I p) (inv : I s) (run : Run p tr q) (allowed : M.Along M.allows s tr) :
    M.Along (fun t e => e.Own → M.demands t e) s tr :=
  (wp_run run allowed (keeps s inv)).1

/-- What every event of a program leaves behind, and the surroundings keep, holds at the end. -/
theorem Stable.after {I : S → Prop} (stable : Stable M I) {s : S} {tr : List (Event Op Ans Loop Ext)} (inv : I s)
    (allowed : M.Along M.allows s tr) (shown : M.Along (fun t e => e.Own → I (M.next t e)) s tr) : I (M.after s tr) := by
  induction tr generalizing s with
  | nil => exact inv
  | cons e tr ih =>
    refine ih ?_ allowed.2 shown.2
    cases e with
    | ext e => exact stable s e inv allowed.1
    | call o a => exact shown.1 trivial
    | iter l => exact shown.1 trivial

/-- What every event of a kind takes one of, and nothing else takes, bounds their number. -/
theorem Monitor.along_count (kind : Event Op Ans Loop Ext → Bool) (left : S → Nat)
    (takes : ∀ s e, kind e = true → left (M.next s e) = left s - 1)
    (keeps : ∀ s e, kind e = false → left (M.next s e) = left s) {s : S} {tr : List (Event Op Ans Loop Ext)}
    (along : M.Along (fun t e => kind e = true → 0 < left t) s tr) : tr.countP kind ≤ left s := by
  induction tr generalizing s with
  | nil => exact Nat.zero_le _
  | cons e tr ih =>
    have later := ih along.2
    cases same : kind e with
    | true =>
      have some := along.1 same
      rw [takes s e same] at later
      rw [List.countP_cons_of_pos same]
      omega
    | false =>
      rw [keeps s e same] at later
      rwa [List.countP_cons_of_neg (by rw [same]; decide)]

/-! ### Programs with variables -/

/-- A program with variables leads from `I` to `J`, whatever the variables hold. -/
def LeadsAll {τ : Type} (M : Monitor Op Ans Loop Ext S) (I J : S → Prop) (p : StateT τ (Prog Op Ans Loop) α) : Prop :=
  ∀ t, Leads M I J (p t)

/-- A program with variables keeps `I`, whatever the variables hold. -/
def KeepsAll {τ : Type} (M : Monitor Op Ans Loop Ext S) (I : S → Prop) (p : StateT τ (Prog Op Ans Loop) α) : Prop :=
  ∀ t, Keeps M I (p t)

section
variable {τ : Type} {I J K : S → Prop} {p q : StateT τ (Prog Op Ans Loop) α}

theorem LeadsAll.bind {f : α → StateT τ (Prog Op Ans Loop) β} (first : LeadsAll M I J p)
    (rest : ∀ a, LeadsAll M J K (f a)) : LeadsAll M I K (p >>= f) :=
  fun t => (first t).bind (fun r => rest r.1 r.2)

theorem KeepsAll.bind {f : α → StateT τ (Prog Op Ans Loop) β} (first : KeepsAll M I p)
    (rest : ∀ a, KeepsAll M I (f a)) : KeepsAll M I (p >>= f) :=
  fun t => (first t).bind (fun r => rest r.1 r.2)

/-- A first part that keeps `I`, before the part that leads from it. -/
theorem KeepsAll.before {f : α → StateT τ (Prog Op Ans Loop) β} (first : KeepsAll M I p)
    (rest : ∀ a, LeadsAll M I J (f a)) : LeadsAll M I J (p >>= f) :=
  LeadsAll.bind first rest

/-- A step of the program inside one with variables. -/
theorem wp_lift_bind {p : Prog Op Ans Loop α} {f : α → StateT τ (Prog Op Ans Loop) β} {t : τ}
    {Q : β × τ → S → Prop} {s : S} (holds : wp M p (fun a u => wp M (f a t) Q u) s) :
    wp M ((liftM p >>= f : StateT τ (Prog Op Ans Loop) β) t) Q s :=
  wp_bind (wp_bind (wp_mono (fun _ _ rest _ rely => wp_stable rely rest) holds))

theorem LeadsAll.ite {c : Prop} [Decidable c] (yes : LeadsAll M I J p) (no : LeadsAll M I J q) :
    LeadsAll M I J (if c then p else q) := by
  split
  · exact yes
  · exact no

theorem KeepsAll.ite {c : Prop} [Decidable c] (yes : KeepsAll M I p) (no : KeepsAll M I q) :
    KeepsAll M I (if c then p else q) :=
  LeadsAll.ite yes no

theorem KeepsAll.fault (allowed : ∀ s, M.faults s) : KeepsAll M I (fun _ => .fault : StateT τ (Prog Op Ans Loop) α) :=
  fun _ _ _ t _ => allowed t

theorem LeadsAll.lift (stable : Stable M J) {p : Prog Op Ans Loop α} (leads : Leads M I J p) :
    LeadsAll M I J (liftM p : StateT τ (Prog Op Ans Loop) α) := fun _ => leads.bind (fun _ => Keeps.ret stable _)

variable (stable : Stable M I)
include stable

theorem KeepsAll.pure (a : α) : KeepsAll M I (pure a : StateT τ (Prog Op Ans Loop) α) := fun _ => .ret stable _

theorem KeepsAll.get : KeepsAll M I (get : StateT τ (Prog Op Ans Loop) τ) := fun _ => .ret stable _

theorem KeepsAll.modify (f : τ → τ) : KeepsAll M I (modify f : StateT τ (Prog Op Ans Loop) Unit) :=
  fun _ => .ret stable _

theorem KeepsAll.lift {p : Prog Op Ans Loop α} (keeps : Keeps M I p) :
    KeepsAll M I (liftM p : StateT τ (Prog Op Ans Loop) α) := fun _ => keeps.bind (fun _ => .ret stable _)

end

/-! ### Surroundings that are a function -/

/-- At most `fuel` iterations of a loop whose body runs by `once`. -/
def iterate {T : Type} (once : σ → T → Option ((σ ⊕ β) × T)) : Nat → σ → T → Option (β × T)
  | 0, _, _ => none
  | fuel+1, x, t =>
    match once x t with
    | some (.inl next, u) => iterate once fuel next u
    | some (.inr b, u) => some (b, u)
    | none => none

/-- The program against surroundings that answer by `env`, with at most `fuel`
    iterations of each loop. -/
def exec {T : Type} (env : T → (o : Op) → Ans o × T) (fuel : Nat) {α : Type} :
    Prog Op Ans Loop α → T → Option (α × T)
  | .ret a, t => some (a, t)
  | .fault, _ => none
  | .ask o k, t => exec env fuel (k (env t o).1) (env t o).2
  | .loop _ x body k, t =>
    match iterate (fun y u => exec env fuel (body y) u) fuel x t with
    | some (b, u) => exec env fuel (k b) u
    | none => none

variable {T : Type} {env : T → (o : Op) → Ans o × T} {fuel : Nat}

@[simp] theorem exec_ret (a : α) (t : T) : exec env fuel (.ret a : Prog Op Ans Loop α) t = some (a, t) := rfl
@[simp] theorem exec_fault (t : T) : exec env fuel (.fault : Prog Op Ans Loop α) t = none := rfl
@[simp] theorem exec_ask (o : Op) (k : Ans o → Prog Op Ans Loop α) (t : T) :
    exec env fuel (.ask o k) t = exec env fuel (k (env t o).1) (env t o).2 := rfl

theorem exec_bind (p : Prog Op Ans Loop α) (f : α → Prog Op Ans Loop β) (t : T) :
    exec env fuel (p.bind f) t = (exec env fuel p t).bind (fun r => exec env fuel (f r.1) r.2) := by
  induction p generalizing t with
  | ret a => rfl
  | fault => rfl
  | ask o k ih => simp only [ask_bind, exec_ask, ih]
  | loop l x body k _ ih =>
    simp only [loop_bind, exec]
    cases iterate (fun y u => exec env fuel (body y) u) fuel x t with
    | none => rfl
    | some r => exact ih r.1 f r.2

section
variable {τ : Type} (t : τ) (u : T)

@[simp] theorem exec_all_bind (p : StateT τ (Prog Op Ans Loop) α) (f : α → StateT τ (Prog Op Ans Loop) β) :
    exec env fuel ((p >>= f) t) u = (exec env fuel (p t) u).bind (fun r => exec env fuel (f r.1.1 r.1.2) r.2) :=
  exec_bind (p t) (fun r => f r.1 r.2) u

@[simp] theorem exec_lift (p : Prog Op Ans Loop α) :
    exec env fuel ((liftM p : StateT τ (Prog Op Ans Loop) α) t) u =
      (exec env fuel p u).bind (fun r => some ((r.1, t), r.2)) :=
  exec_bind p (fun a => .ret (a, t)) u

@[simp] theorem exec_pure (a : α) :
    exec env fuel ((pure a : StateT τ (Prog Op Ans Loop) α) t) u = some ((a, t), u) := rfl

@[simp] theorem exec_get : exec env fuel ((get : StateT τ (Prog Op Ans Loop) τ) t) u = some ((t, t), u) := rfl

@[simp] theorem exec_modify (f : τ → τ) :
    exec env fuel ((modify f : StateT τ (Prog Op Ans Loop) Unit) t) u = some (((), f t), u) := rfl

@[simp] theorem exec_ite {c : Prop} [Decidable c] (p q : StateT τ (Prog Op Ans Loop) α) :
    exec env fuel ((if c then p else q) t) u = if c then exec env fuel (p t) u else exec env fuel (q t) u := by
  split <;> rfl

end

/-- A trace whose requests are answered by `env`, from one state of the surroundings to another. -/
inductive Answers (env : T → (o : Op) → Ans o × T) : T → List (Event Op Ans Loop Ext) → T → Prop where
  | nil (t : T) : Answers env t [] t
  | call {t u : T} {tr : List (Event Op Ans Loop Ext)} (o : Op) :
      Answers env (env t o).2 tr u → Answers env t (.call o (env t o).1 :: tr) u
  | iter {t u : T} {tr : List (Event Op Ans Loop Ext)} (l : Loop) :
      Answers env t tr u → Answers env t (.iter l :: tr) u

theorem Answers.append {t u v : T} {xs ys : List (Event Op Ans Loop Ext)} (first : Answers env t xs u)
    (rest : Answers env u ys v) : Answers env t (xs ++ ys) v := by
  induction first with
  | nil t => exact rest
  | call o _ ih => exact .call o (ih rest)
  | iter l _ ih => exact .iter l (ih rest)

/-- What `exec` computes is a run of the program against `env`. -/
theorem exec_run {p : Prog Op Ans Loop α} {t u : T} {a : α} (executed : exec env fuel p t = some (a, u)) :
    ∃ tr : List (Event Op Ans Loop Ext), Run p tr (.ret a) ∧ Answers env t tr u := by
  induction p generalizing t u with
  | ret b =>
    obtain ⟨rfl, rfl⟩ : b = a ∧ t = u := by simpa using executed
    exact ⟨[], .done _, .nil _⟩
  | fault => simp at executed
  | ask o k ih =>
    obtain ⟨tr, run, answers⟩ := ih _ executed
    exact ⟨_, .step (.ask o k _) run, .call o answers⟩
  | loop l x body k ihBody ihK =>
    -- The iterations are runs of the loop, one after another, up to the exit.
    have iterations : ∀ n y v b w, iterate (fun y u => exec env fuel (body y) u) n y v = some (b, w) →
        ∃ tr : List (Event Op Ans Loop Ext), Run (.loop l y body k) tr (k b) ∧ Answers env v tr w := by
      intro n
      induction n with
      | zero => intro y v b w found; simp [iterate] at found
      | succ n ih =>
        intro y v b w found
        rw [iterate] at found
        cases once : exec env fuel (body y) v with
        | none => simp [once] at found
        | some r =>
          obtain ⟨r, v'⟩ := r
          obtain ⟨first, run, answers⟩ := ihBody y once
          have entered : Step _ (.iter l : Event Op Ans Loop Ext) _ := .loop l y body k
          cases r with
          | inl z =>
            obtain ⟨rest, runRest, answersRest⟩ := ih z v' b w (by simpa [once] using found)
            exact ⟨.iter l :: (first ++ rest), .step entered ((run.bind _).append runRest),
              .iter l (answers.append answersRest)⟩
          | inr c =>
            obtain ⟨rfl, rfl⟩ : c = b ∧ v' = w := by simpa [once] using found
            exact ⟨.iter l :: first, .step entered (run.bind _), .iter l answers⟩
    rw [exec] at executed
    cases exit : iterate (fun y u => exec env fuel (body y) u) fuel x t with
    | none => simp [exit] at executed
    | some r =>
      obtain ⟨b, v⟩ := r
      obtain ⟨first, run, answers⟩ := iterations fuel x t b v exit
      obtain ⟨rest, runRest, answersRest⟩ := ihK b (by simpa [exit] using executed)
      exact ⟨first ++ rest, run.append runRest, answers.append answersRest⟩

end

end Tortuga.Programs
