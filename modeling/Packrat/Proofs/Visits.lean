import Packrat.Proofs.Moves

/-!
# The evaluations inside an evaluation

An expression evaluates its parts, each from the state that the parts before it have left
(`Expr.Part`), and a rule that is neither remembered nor refused evaluates its body. `Expr.Visits`
collects all evaluations that come about in this way, with the rules that are open around each of
them, the innermost first.

What holds of completed evaluations and across changes of the cursor holds up to the start of a part
(`Carried.part`); so a statement about every visit is an induction with one case for a part and
one for a body.
-/

namespace Packrat

/-- The loop of a repetition that goes on after some matches of `m`: what is left of its attempts,
the items and the state, before and after these matches. -/
inductive Matcher.Iterates (count : Count) (m : Matcher) :
    Nat → Array Value → State → Nat → Array Value → State → Prop where
  | start (budget : Nat) (items : Array Value) (s : State) :
      Iterates count m budget items s budget items s
  | next {budget left stop : Nat} {items items' : Array Value} {s t u : State} {v : Value}
      (hopen : count.isFull items.size = false) (hm : m s = .ok (.matched stop v) t)
      (hgo : ¬ (stop = s.cursor ∧ count.least ≤ (items.push v).size))
      (rest : Iterates count m budget (items.push v) t left items' u) :
      Iterates count m (budget + 1) items s left items' u

namespace Expr

/-- Evaluating an expression from one state comes to evaluate a part of it from another, where
`call` evaluates rules. -/
inductive Part (env : Env) (call : RuleId → Matcher) : Expr → State → Expr → State → Prop where
  | optional (label : String) (y : Expr) (s : State) : Part env call (.optionalAs label y) s y s
  | repeated (label : String) {y : Expr} {count : Count} {budget : Nat} {items : Array Value}
      {s t : State}
      (h : Matcher.Iterates count (y.matcher env call)
        (count.least + (env.length - s.cursor) + 1) #[] s (budget + 1) items t)
      (hopen : count.isFull items.size = false) : Part env call (.repeatedAs label y count) s y t
  | lookahead (label : String) (negated : Bool) (y : Expr) (s : State) :
      Part env call (.lookaheadAs label negated y) s y s
  | step (label : String) (type : ValueType) (build : Hook Slots (Except Fault Value))
      {done : List (Step Expr)} (y : Expr) (store : Option ValueType) (rest : List (Step Expr))
      {slots : Slots} {s t : State}
      (h : Matcher.runSteps (stepMatchers env call done) s = .ok (some slots) t) :
      Part env call (.sequenceAs label type (done ++ ⟨y, store⟩ :: rest) build) s y t
  | alternative (label : String) {tried : List Expr} (y : Expr) (rest : List Expr) {s t : State}
      (h : Matcher.firstOf env s.cursor (matchers env call tried) s = .ok .failed t) :
      Part env call (.choiceAs label (tried ++ y :: rest)) s y t
  | map (type : ValueType) (f : Hook Value Value) (y : Expr) (s : State) :
      Part env call (.map type f y) s y s

/-- Evaluating `x` from `s` with room for `n` open rules comes to evaluate an expression from a
state with room for the given number. Around it the rules of the list are open, the innermost
first. -/
inductive Visits (env : Env) (n : Nat) (x : Expr) (s : State) :
    List RuleId → Nat → Expr → State → Prop where
  | here : Visits env n x s [] n x s
  | part {rules : List RuleId} {k : Nat} {y z : Expr} {t u : State}
      (h : Visits env n x s rules k y t) (hp : y.Part env (callRule env k) t z u) :
      Visits env n x s rules k z u
  | body {rules : List RuleId} {k : Nat} {r : RuleId} {y : Expr} {t u : State}
      (h : Visits env n x s rules (k + 1) (.rule r) t) (hk : t.known? env (.rule r) = none)
      (hl : t.atLimit env = false)
      (hb : Matcher.body? r ((t.opened (.rule r)).entering env r) = .ok (some y) u) :
      Visits env n x s (r :: rules) k y u

end Expr

/-- A relation between the states before and after every completed evaluation of an expression, and
before and after every change of the cursor. -/
structure Carried (env : Env) (call : RuleId → Matcher) (R : State → State → Prop) : Prop where
  refl : ∀ s, R s s
  trans : ∀ {s t u}, R s t → R t u → R s u
  moveTo : ∀ s p, R s (s.moveTo env p)
  matcher : ∀ (x : Expr) {s o t}, x.matcher env call s = .ok o t → R s t

section

variable {env : Env} {call : RuleId → Matcher} {R : State → State → Prop} {n k : Nat} {x y : Expr}
  {s t u : State} {rules : List RuleId}

/-! ## Up to a part -/

/-- A part is smaller than the whole, so an induction along parts ends. -/
theorem Expr.Part.sizeOf_lt (h : x.Part env call s y t) : sizeOf y < sizeOf x := by
  cases h with
  | optional | repeated | lookahead | map =>
    simp only [optionalAs.sizeOf_spec, repeatedAs.sizeOf_spec, lookaheadAs.sizeOf_spec,
      map.sizeOf_spec]
    omega
  | @step label type build done y store rest =>
    have hmem : sizeOf (Step.mk y store) < sizeOf (done ++ ⟨y, store⟩ :: rest) :=
      List.sizeOf_lt_of_mem (List.mem_append_right _ List.mem_cons_self)
    simp only [Step.mk.sizeOf_spec] at hmem
    simp only [sequenceAs.sizeOf_spec]
    omega
  | @alternative label tried y rest =>
    have hmem : sizeOf y < sizeOf (tried ++ y :: rest) :=
      List.sizeOf_lt_of_mem (List.mem_append_right _ List.mem_cons_self)
    simp only [choiceAs.sizeOf_spec]
    omega

namespace Carried

/-- What evaluations carry, the rounds of a loop do. -/
theorem iterates (hR : Carried env call R) {count : Count} {budget left : Nat}
    {items items' : Array Value}
    (h : Matcher.Iterates count (x.matcher env call) budget items s left items' t) : R s t := by
  induction h with
  | start budget items s => exact hR.refl s
  | next _ hm _ _ ih => exact hR.trans (hR.matcher x hm) ih

theorem runSteps (hR : Carried env call R) {steps : List (Step Expr)} {slots : Option Slots}
    (h : Matcher.runSteps (Expr.stepMatchers env call steps) s = .ok slots t) : R s t := by
  induction steps generalizing s slots t with
  | nil => cases h; exact hR.refl _
  | cons step rest ih =>
    obtain ⟨x, store⟩ := step
    rw [Expr.stepMatchers, Matcher.run_runSteps_cons] at h
    dsimp only at h
    cases hr : x.matcher env call s with
    | error e u => rw [hr] at h; cases h
    | ok o u =>
      have hsu := hR.matcher x hr
      rw [hr] at h
      cases o with
      | failed => cases h; exact hsu
      | matched stop v =>
        dsimp only at h
        cases hw : Matcher.runSteps (Expr.stepMatchers env call rest) u with
        | error e w => rw [hw] at h; cases h
        | ok slots' w =>
          rw [hw] at h
          cases slots' <;> cases h <;> exact hR.trans hsu (ih hw)

theorem firstOf (hR : Carried env call R) {xs : List Expr} {start : Nat} {o : Outcome Value}
    (h : Matcher.firstOf env start (Expr.matchers env call xs) s = .ok o t) : R s t := by
  induction xs generalizing s with
  | nil => cases h; exact hR.refl _
  | cons x rest ih =>
    rw [Expr.matchers, Matcher.run_firstOf_cons] at h
    cases hr : x.matcher env call s with
    | error e u => rw [hr] at h; cases h
    | ok o' u =>
      have hsu := hR.matcher x hr
      rw [hr] at h
      cases o' with
      | matched stop v => cases h; exact hsu
      | failed => exact hR.trans (hR.trans hsu (hR.moveTo u start)) (ih h)

/-- A part begins in a state that was carried there by the parts before it. -/
theorem part (hR : Carried env call R) (h : x.Part env call s y t) : R s t := by
  cases h with
  | optional | lookahead | map => exact hR.refl s
  | repeated label h hopen => exact hR.iterates h
  | step label type build y store rest h => exact hR.runSteps h
  | alternative label y rest h => exact hR.firstOf h

theorem moves (env : Env) (n : Nat) : Carried env (callRule env n) (Moves env) where
  refl := .refl env
  trans := .trans
  moveTo s p := .of_works (.moveTo env s p)
  matcher x {s o t} h := by
    rw [x.matcher_eq_run] at h
    have hm := (x.linked_self env s).moves (answer_moves env n)
    rw [answer, h] at hm
    exact hm

theorem restores (env : Env) (n : Nat) : Carried env (callRule env n) Restores where
  refl _ := ⟨rfl, rfl⟩
  trans := .trans
  moveTo s p := .of_works (.moveTo env s p)
  matcher x {s o t} h := by
    rw [x.matcher_eq_run] at h
    exact (x.linked_self env s).restores (answer_restores env n) h

/-- What is kept along a course is carried, from every sane state in which it applies. -/
theorem kept {I : State → Prop} (hR : Kept env n I R) :
    Carried env (callRule env n) fun s t => Sane env s → I s → Sane env t ∧ R s t where
  refl s hs hI := ⟨hs, hR.quiet hI (.refl env s)⟩
  trans h h' hs hI := by
    obtain ⟨ht, hst⟩ := h hs hI
    obtain ⟨hu, htu⟩ := h' ht (hR.holds hst)
    exact ⟨hu, hR.trans hst htu⟩
  moveTo s p hs hI := by
    have hq : Quiet env s (s.moveTo env p) := .of_works (.moveTo env s p)
    exact ⟨hq.sane hs, hR.quiet hI hq⟩
  matcher x {s o t} h hs hI := by
    rw [x.matcher_eq_run] at h
    have hend := (x.linked_self env s).reaches_end hR hs hI
    rw [answer, h] at hend
    exact hend

end Carried

/-! ## Up to a visit -/

namespace Expr.Visits

/-- Further inside there is no more room. -/
theorem room_le (h : x.Visits env n s rules k y t) : k ≤ n := by
  induction h with
  | here => exact Nat.le_refl n
  | part _ _ ih => exact ih
  | body _ _ _ _ ih => omega

/-- The evaluations inside one that is visited are visited too, with more rules around them. -/
theorem trans {rules' : List RuleId} {j : Nat} {z : Expr} (h : x.Visits env n s rules k y t)
    (h' : y.Visits env k t rules' j z u) : x.Visits env n s (rules' ++ rules) j z u := by
  induction h' with
  | here => exact h
  | part _ hp ih => exact ih.part hp
  | body _ hk hl hb ih => exact ih.body hk hl hb

theorem moves (h : x.Visits env n s rules k y t) : Moves env s t := by
  induction h with
  | here => exact .refl env s
  | part _ hp ih => exact ih.trans ((Carried.moves env _).part hp)
  | @body rules k r y t u _ hk hl hb ih =>
    have hopen : Moves env t (t.opened (.rule r)) := .opened hl
    have hbody : Moves env _ _ := .body? r ((t.opened (.rule r)).entering env r)
    rw [hb] at hbody
    exact ih.trans (hopen.trans ((Moves.entering _ r).trans hbody))

/-- What evaluations keep holds up to the start of every visit. -/
theorem kept {I : State → Prop} (hR : Kept env n I R) (hs : Sane env s) (hI : I s)
    (h : x.Visits env n s rules k y t) : Sane env t ∧ R s t := by
  induction h with
  | here => exact ⟨hs, hR.quiet hI (.refl env s)⟩
  | part h hp ih =>
    obtain ⟨ht, hst⟩ := ih
    obtain ⟨hu, htu⟩ := (Carried.kept (hR.mono h.room_le)).part hp ht (hR.holds hst)
    exact ⟨hu, hR.trans hst htu⟩
  | @body rules k r y t u _ hk hl hb ih =>
    obtain ⟨ht, hst⟩ := ih
    have hq : Quiet env t u := (Quiet.opened t (.rule r)).trans
      ((Quiet.entering _ r).trans (.of_rebuilt (Matcher.rebuilt_of_body? hb)))
    exact ⟨hq.sane ht, hR.trans hst (hR.quiet (hR.holds hst) hq)⟩

end Expr.Visits

theorem Expr.orderly_callRule (env : Env) (k : Nat) (x : Expr) :
    (x.matcher env (callRule env k)).Orderly env False :=
  x.orderly (fun r => orderly_answer k (.rule r)) orderly_builtin

/-- An orderly evaluation from a sane state ends in one. -/
theorem Matcher.Orderly.lands {total : Prop} {m : Matcher} (hm : m.Orderly env total)
    (hs : Sane env s) {o : Outcome Value} (h : m s = .ok o t) : Sane env t ∧ Lands env s o t := by
  have hrun := hm s hs
  rw [h] at hrun
  exact hrun

/-- A matcher matches, fails or is halted; a match ends where it leaves the cursor. -/
theorem Matcher.Orderly.run_cases {total : Prop} {m : Matcher} (hm : m.Orderly env total)
    (hs : Sane env s) :
    (∃ v t, m s = .ok (.matched t.cursor v) t ∧ Sane env t) ∨ (∃ t, m s = .ok .failed t) ∨
      ∃ e t, m s = .error e t := by
  cases hr : m s with
  | error e t => exact .inr (.inr ⟨e, t, rfl⟩)
  | ok o t =>
    obtain ⟨ht, hland⟩ := hm.lands hs hr
    cases o with
    | failed => exact .inr (.inl ⟨t, rfl⟩)
    | matched stop v =>
      obtain ⟨rfl, -⟩ := hland
      exact .inl ⟨v, t, rfl, ht⟩

end

/-! ## Evaluations of a session -/

/-- A session over a text comes to evaluate `x` from `u` with room for `k` open rules, by a command
or anywhere inside an evaluation that a command asked for. -/
def Session.Evaluates (text : String) (config : Config) (g : Grammar) (k : Nat) (x : Expr)
    (u : State) : Prop :=
  ∃ cs z rules,
    let env := Env.ofText text config
    let s := ((Session.start text config g).after cs).state
    Expr.Visits env (headroom env s.grammar) z s rules k x u

/-- An invariant of sessions holds where a session evaluates anything. -/
theorem Session.Evaluates.kept {text : String} {config : Config} {g : Grammar} {k : Nat} {x : Expr}
    {u : State} {I : State → Prop} {R : State → State → Prop}
    (hR : ∀ n, Kept (.ofText text config) n I R)
    (hI : ∀ cs, ∀ s ∈ (Session.start text config g).moments cs, I s)
    (h : Session.Evaluates text config g k x u) : Sane (.ofText text config) u ∧ I u := by
  obtain ⟨cs, z, rules, hv⟩ := h
  have hmem := Session.after_mem_moments (Session.start text config g) cs
  obtain ⟨hsane, hend⟩ := hv.kept (hR _) (Session.sane_of_mem_moments hmem) (hI cs _ hmem)
  exact ⟨hsane, (hR 0).holds hend⟩

theorem Session.Evaluates.sane {text : String} {config : Config} {g : Grammar} {k : Nat} {x : Expr}
    {u : State} (h : Session.Evaluates text config g k x u) : Sane (.ofText text config) u :=
  (h.kept (kept_sane _) fun _ _ _ => trivial).1

end Packrat
