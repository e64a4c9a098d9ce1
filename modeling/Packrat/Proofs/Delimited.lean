import Packrat.Expr.Delimited
import Packrat.Proofs.Repetition
import Packrat.Proofs.Sequence

/-!
# Delimited lists

What a delimited list matches is said without the expression that it is built of: the opening, a
greedy run of elements (`Delimited.Greedy`), and the closing. The elements behind the first one are
a `Delimited.Row`, with one case for each way in which a separator and an element can go on.

The expression of a list follows this layer by layer. A separator with an element is one attempt of
a repetition (`Delimited.next_cases`), so a row is what this repetition collects
(`Delimited.Row.collects`, `Delimited.Row.of_collects`); the first element is put in front of it,
and an empty list is let through if it is allowed (`Delimited.elements_matched_iff`). No layer is
halted by itself (`Expr.HaltedBy`).
-/

namespace Packrat

/-- The state after an attempt that began in `s` was given up: cursor and failures are those of `s`
again. -/
def State.backTo (t s : State) : State := { t with cursor := s.cursor, failures := s.failures }

/-- Evaluating `x` from `s` comes to evaluate one of the given expressions, and is halted there. -/
def Expr.HaltedBy (env : Env) (k : Nat) (ys : List Expr) (x : Expr) (s : State) (e : Halt)
    (t : State) : Prop :=
  ∃ y ∈ ys, ∃ u, x.Visits env k s [] k y u ∧ y.matcher env (callRule env k) u = .error e t

namespace Delimited

/-- The expressions that a list is made of. -/
def parts (d : Delimited) : List Expr :=
  d.element :: (d.separator.toList ++ d.opening.toList ++ d.closing.toList)

/-- An expression matches if there is one. -/
inductive Skips (run : Expr → Matcher) : Option Expr → State → State → Prop where
  | absent (s : State) : Skips run none s s
  | present {y : Expr} {s t : State} {v : Value} (h : run y s = .ok (.matched t.cursor v) t) :
      Skips run (some y) s t

/-- The separator and an element behind it match. -/
def Joins (d : Delimited) (run : Expr → Matcher) (s : State) (v : Value) (t : State) : Prop :=
  ∃ u, Skips run d.separator s u ∧ run d.element u = .ok (.matched t.cursor v) t

/-- The separator does not match, or the element behind it does not. -/
inductive Breaks (d : Delimited) (run : Expr → Matcher) : State → State → Prop where
  | separator {y : Expr} {s t : State} (hsep : d.separator = some y) (h : run y s = .ok .failed t) :
      Breaks d run s t
  | element {s t u : State} (hsep : Skips run d.separator s t)
      (h : run d.element t = .ok .failed u) : Breaks d run s u

/-- The elements of a list behind its first `n`, each with a separator in front. They end when there
are as many as allowed, when no other element can be joined, in which case the separator is left as
well, and when one was joined that consumed nothing and made the elements enough. -/
inductive Row (d : Delimited) (run : Expr → Matcher) :
    Nat → State → List Value → State → Prop where
  | full {n : Nat} {s : State} (hfull : ∃ b ∈ d.most, b ≤ n) : Row d run n s [] s
  | stop {n : Nat} {s t : State} (hopen : ∀ b ∈ d.most, n < b) (h : d.Breaks run s t) :
      Row d run n s [] (t.backTo s)
  | stall {n : Nat} {s t : State} {v : Value} (hopen : ∀ b ∈ d.most, n < b)
      (h : d.Joins run s v t) (hstall : t.cursor = s.cursor) (henough : d.least ≤ n + 1) :
      Row d run n s [v] t
  | next {n : Nat} {s t u : State} {v : Value} {vs : List Value} (hopen : ∀ b ∈ d.most, n < b)
      (h : d.Joins run s v t) (hgo : ¬ (t.cursor = s.cursor ∧ d.least ≤ n + 1))
      (rest : Row d run (n + 1) t vs u) : Row d run n s (v :: vs) u

/-- The elements of a list, as many as there are. -/
inductive Greedy (d : Delimited) (run : Expr → Matcher) : State → List Value → State → Prop where
  | none {s : State} (hmost : d.most = some 0) : Greedy d run s [] s
  | empty {s t : State} (hmost : d.most ≠ some 0) (h : run d.element s = .ok .failed t) :
      Greedy d run s [] (t.backTo s)
  | first {s t u : State} {v : Value} {vs : List Value} (hmost : d.most ≠ some 0)
      (h : run d.element s = .ok (.matched t.cursor v) t) (rest : Row d run 1 t vs u) :
      Greedy d run s (v :: vs) u

end Delimited

section

variable {env : Env} {k n : Nat} {d : Delimited} {x y : Expr} {ys : List Expr} {s t u w : State}
  {e : Halt} {v : Value} {vs : List Value}

/-! ## Giving up and being halted -/

/-- Cutting back what was added gives an attempt up, where the cursor is back at its start. -/
theorem State.cutBack_eq_backTo {fs : Array Failure} (hc : t.cursor = s.cursor)
    (hf : t.failures = s.failures ++ fs) : t.cutBack s.failures.size = t.backTo s := by
  have hcut : (t.cutBack s.failures.size).failures = s.failures := by
    rw [State.cutBack_failures, hf, Array.take_eq_extract, Array.extract_append_left,
      Array.extract_size]
  calc t.cutBack s.failures.size
      = { t with failures := (t.cutBack s.failures.size).failures } := rfl
    _ = t.backTo s := by rw [hcut, State.backTo, ← hc]

/-- A composite that fails goes back and adds a failure; cutting back then takes all of it away. -/
theorem State.cutBack_record (hs : s.cursor ≤ env.length) {fs : Array Failure}
    (hf : t.failures = s.failures ++ fs) (cause : Cause) :
    ((t.moveTo env s.cursor).record cause).cutBack s.failures.size = t.backTo s := by
  have hc : ((t.moveTo env s.cursor).record cause).cursor = s.cursor := moveTo_start hs t
  have hf' : ((t.moveTo env s.cursor).record cause).failures =
      s.failures ++ fs.push ⟨s.cursor, cause⟩ := by
    rw [State.record_failures, State.moveTo_failures, moveTo_start hs, hf, Array.append_push]
  rw [State.cutBack_eq_backTo hc hf']
  rfl

namespace Expr.HaltedBy

theorem self (hmem : x ∈ ys) (h : x.matcher env (callRule env k) s = .error e t) :
    HaltedBy env k ys x s e t := ⟨x, hmem, s, .here, h⟩

theorem part (hp : x.Part env (callRule env k) s y u) (h : HaltedBy env k ys y u e t) :
    HaltedBy env k ys x s e t := by
  obtain ⟨z, hmem, w, hv, hz⟩ := h
  exact ⟨z, hmem, w, (Visits.here.part hp).trans hv, hz⟩

/-- A sequence is halted by what a step is halted by. -/
theorem step (hs : Sane env s) {label : String} {type : ValueType}
    {build : Hook Slots (Except Fault Value)} {done steps rest : List (Step Expr)}
    {step : Step Expr} (hm : StepsMatch (fun x => x.matcher env (callRule env k)) done s vs t)
    (hsteps : steps = done ++ step :: rest) (h : HaltedBy env k ys step.body t e u) :
    HaltedBy env k ys (.sequenceAs label type steps build) s e u :=
  .part ((part_sequence_iff label type build hs).mpr ⟨done, step.store, rest, vs, hsteps, hm⟩) h

end Expr.HaltedBy

namespace Delimited

/-! ## A separator and an element -/

theorem next_of_none (h : d.separator = none) : d.next = d.element := by rw [next, h]

theorem next_of_some (h : d.separator = some y) :
    d.next = .sequence .val ([y.skipped] ++ [d.element.kept])
      { apply := (Recipe.single (.take ⟨[y.skipped].length, d.element.type⟩)).build } := by
  rw [next, h]
  rfl

/-- A separator and an element that are joined are one match of what is repeated. -/
theorem Joins.run_next (hs : Sane env s)
    (h : d.Joins (fun x => x.matcher env (callRule env k)) s v t) :
    d.next.matcher env (callRule env k) s = .ok (.matched t.cursor v) t := by
  obtain ⟨u, hskip, hel⟩ := h
  cases hsep : d.separator with
  | none =>
    rw [hsep] at hskip
    cases hskip
    rw [next_of_none hsep]
    exact hel
  | some y =>
    rw [hsep] at hskip
    cases hskip with
    | @present _ _ _ v' hy =>
      rw [next_of_some hsep]
      have hm : Expr.StepsMatch (fun x => x.matcher env (callRule env k))
          ([y.skipped] ++ [d.element.kept]) s ([v'] ++ [v]) t := .cons hy (.cons hel (.nil t))
      exact hm.run_sequence_ok hs _ _ rfl
        (Recipe.build_single_take (Step.find?_table_append rfl rfl v))

/-- Where they break off, what is repeated fails, and nothing but the memo shows it. -/
theorem Breaks.run_next (hs : Sane env s)
    (h : d.Breaks (fun x => x.matcher env (callRule env k)) s t) :
    ∃ u, d.next.matcher env (callRule env k) s = .ok .failed u ∧
      u.cutBack s.failures.size = t.backTo s := by
  cases h with
  | @separator y _ _ hsep hy =>
    obtain ⟨-, -, fs, -, hf⟩ := (y.orderly_callRule env k).lands hs hy
    have hstep : y.skipped.body.matcher env (callRule env k) s = .ok .failed t := hy
    rw [next_of_some hsep]
    exact ⟨_, (Expr.StepsMatch.nil s).run_sequence_failed _ _ _ hstep,
      State.cutBack_record hs.cursor hf _⟩
  | @element _ u _ hskip hel =>
    cases hsep : d.separator with
    | none =>
      rw [hsep] at hskip
      cases hskip
      obtain ⟨-, hc, fs, -, hf⟩ := (d.element.orderly_callRule env k).lands hs hel
      rw [next_of_none hsep]
      exact ⟨t, hel, State.cutBack_eq_backTo hc hf⟩
    | some y =>
      rw [hsep] at hskip
      cases hskip with
      | @present _ _ _ v' hy =>
        have hm : Expr.StepsMatch (fun x => x.matcher env (callRule env k)) [y.skipped] s [v'] u :=
          .cons hy (.nil u)
        obtain ⟨hu, hfu⟩ := hm.lands hs
        obtain ⟨-, -, fs, -, hf⟩ := (d.element.orderly_callRule env k).lands hu hel
        have hstep : d.element.kept.body.matcher env (callRule env k) u = .ok .failed t := hel
        rw [next_of_some hsep]
        rw [hfu] at hf
        exact ⟨_, hm.run_sequence_failed _ _ _ hstep, State.cutBack_record hs.cursor hf _⟩

theorem element_mem_parts (d : Delimited) : d.element ∈ d.parts := List.mem_cons_self

/-- A separator and an element match, do not match, or are halted. -/
theorem next_cases (d : Delimited) (k : Nat) (hs : Sane env s) :
    let run (x : Expr) := x.matcher env (callRule env k)
    (∃ v t, d.Joins run s v t) ∨ (∃ t, d.Breaks run s t) ∨
      ∃ e t, d.next.matcher env (callRule env k) s = .error e t ∧
        Expr.HaltedBy env k d.parts d.next s e t := by
  intro run
  cases hsep : d.separator with
  | none =>
    have habsent : Skips run d.separator s s := hsep ▸ .absent s
    rw [next_of_none hsep]
    rcases (d.element.orderly_callRule env k).run_cases hs with
      ⟨v, t, hel, -⟩ | ⟨t, hel⟩ | ⟨e, t, hel⟩
    · exact .inl ⟨v, t, s, habsent, hel⟩
    · exact .inr (.inl ⟨t, .element habsent hel⟩)
    · exact .inr (.inr ⟨e, t, hel, .self d.element_mem_parts hel⟩)
  | some y =>
    rw [next_of_some hsep]
    rcases (y.orderly_callRule env k).run_cases hs with ⟨v', t, hy, ht⟩ | ⟨t, hy⟩ | ⟨e, t, hy⟩
    · have hpresent : Skips run d.separator s t := hsep ▸ .present hy
      have hm : Expr.StepsMatch run [y.skipped] s [v'] t := .cons hy (.nil t)
      rcases (d.element.orderly_callRule env k).run_cases ht with
        ⟨v, u, hel, -⟩ | ⟨u, hel⟩ | ⟨e, u, hel⟩
      · exact .inl ⟨v, u, t, hpresent, hel⟩
      · exact .inr (.inl ⟨u, .element hpresent hel⟩)
      · have hstep : d.element.kept.body.matcher env (callRule env k) t = .error e u := hel
        refine .inr (.inr ⟨e, u, hm.run_sequence_halted _ _ _ hstep, ?_⟩)
        exact .step hs hm rfl (.self d.element_mem_parts hstep)
    · exact .inr (.inl ⟨t, .separator hsep hy⟩)
    · have hstep : y.skipped.body.matcher env (callRule env k) s = .error e t := hy
      have hm : Expr.StepsMatch run [] s [] s := .nil s
      refine .inr (.inr ⟨e, t, hm.run_sequence_halted _ _ _ hstep, ?_⟩)
      exact .step hs hm rfl (.self (by simp [parts, hsep, Expr.skipped]) hstep)

/-- A match of what is repeated is a separator and an element. -/
theorem Joins.of_run_next (hs : Sane env s)
    (h : d.next.matcher env (callRule env k) s = .ok (.matched t.cursor v) t) :
    d.Joins (fun x => x.matcher env (callRule env k)) s v t := by
  rcases d.next_cases k hs with ⟨v', t', hj⟩ | ⟨t', hb⟩ | ⟨e, t', he, -⟩
  · have heq := h.symm.trans (hj.run_next hs)
    rw [EStateM.Result.ok.injEq, Outcome.matched.injEq] at heq
    obtain ⟨⟨-, rfl⟩, rfl⟩ := heq
    exact hj
  · obtain ⟨u, hu, -⟩ := hb.run_next hs
    rw [hu] at h
    cases h
  · rw [he] at h
    cases h

/-- Where what is repeated fails, a separator or an element did. -/
theorem Breaks.of_run_next (hs : Sane env s)
    (h : d.next.matcher env (callRule env k) s = .ok .failed u) :
    ∃ t, d.Breaks (fun x => x.matcher env (callRule env k)) s t ∧
      u.cutBack s.failures.size = t.backTo s := by
  rcases d.next_cases k hs with ⟨v', t', hj⟩ | ⟨t', hb⟩ | ⟨e, t', he, -⟩
  · rw [hj.run_next hs] at h
    cases h
  · obtain ⟨u', hu', hcut⟩ := hb.run_next hs
    rw [hu'] at h
    cases h
    exact ⟨t', hb, hcut⟩
  · rw [he] at h
    cases h

/-! ## The elements behind the first -/

/-- The elements behind the first one are one less than allowed in all. -/
theorem isFull_others_iff (h : ∀ m ∈ d.most, d.least ≤ m) :
    (others d.least d.most h).isFull n = true ↔ ∃ b ∈ d.most, b ≤ n + 1 := by
  rw [Count.isFull_eq_true_iff]
  change (∃ b ∈ d.most.map (· - 1), b ≤ n) ↔ _
  cases d.most <;> simp

theorem not_isFull_others_iff (h : ∀ m ∈ d.most, d.least ≤ m) :
    (others d.least d.most h).isFull n = false ↔ ∀ b ∈ d.most, n + 1 < b := by
  rw [Count.isFull_eq_false_iff]
  change (∀ b ∈ d.most.map (· - 1), n < b) ↔ _
  cases d.most with
  | none => simp
  | some b =>
    simp only [Option.map_some, Option.mem_some_iff, forall_eq']
    omega

theorem least_others_le_iff (h : ∀ m ∈ d.most, d.least ≤ m) :
    (others d.least d.most h).least ≤ n ↔ d.least ≤ n + 1 := by
  change d.least - 1 ≤ n ↔ _
  omega

/-- A row is collected by the repetition in the expression of the list. -/
theorem Row.collects (h : ∀ m ∈ d.most, d.least ≤ m) (hs : Sane env s)
    (hrow : d.Row (fun x => x.matcher env (callRule env k)) (n + 1) s vs t) :
    ∃ u, Matcher.Collects (others d.least d.most h) (d.next.matcher env (callRule env k)) n s vs u ∧
      u.cutBack s.failures.size = t := by
  generalize hn : n + 1 = n' at hrow
  induction hrow generalizing n with
  | full hfull =>
    subst hn
    exact ⟨_, .full ((isFull_others_iff h).mpr hfull), State.cutBack_size rfl⟩
  | stop hopen hb =>
    subst hn
    obtain ⟨u, hu, hcut⟩ := hb.run_next hs
    exact ⟨u, .stop ((not_isFull_others_iff h).mpr hopen) hu, hcut⟩
  | stall hopen hj hstall henough =>
    subst hn
    have hr := hj.run_next hs
    obtain ⟨-, hland⟩ := (d.next.orderly_callRule env k).lands hs hr
    exact ⟨_, .stall ((not_isFull_others_iff h).mpr hopen) hr hstall
      ((least_others_le_iff h).mpr henough), State.cutBack_size hland.2.2.2⟩
  | next hopen hj hgo _ ih =>
    subst hn
    have hr := hj.run_next hs
    obtain ⟨ht, hland⟩ := (d.next.orderly_callRule env k).lands hs hr
    obtain ⟨u, hc, hcut⟩ := ih ht rfl
    rw [hland.2.2.2] at hcut
    refine ⟨u, .next ((not_isFull_others_iff h).mpr hopen) hr ?_ hc, hcut⟩
    rw [least_others_le_iff h]
    exact hgo

/-- What this repetition collects is a row. -/
theorem Row.of_collects (h : ∀ m ∈ d.most, d.least ≤ m) (hs : Sane env s)
    (hc : Matcher.Collects (others d.least d.most h) (d.next.matcher env (callRule env k)) n s vs
      t) : d.Row (fun x => x.matcher env (callRule env k)) (n + 1) s vs
        (t.cutBack s.failures.size) := by
  induction hc with
  | full hfull =>
    rw [State.cutBack_size rfl]
    exact .full ((isFull_others_iff h).mp hfull)
  | stop hopen hr =>
    obtain ⟨t', hb, hcut⟩ := Breaks.of_run_next hs hr
    rw [hcut]
    exact .stop ((not_isFull_others_iff h).mp hopen) hb
  | stall hopen hr hstall henough =>
    obtain ⟨-, hland⟩ := (d.next.orderly_callRule env k).lands hs hr
    rw [State.cutBack_size hland.2.2.2]
    exact .stall ((not_isFull_others_iff h).mp hopen) (.of_run_next hs hr) hstall
      ((least_others_le_iff h).mp henough)
  | next hopen hr hgo _ ih =>
    obtain ⟨ht, hland⟩ := (d.next.orderly_callRule env k).lands hs hr
    rw [← hland.2.2.2]
    refine .next ((not_isFull_others_iff h).mp hopen) (.of_run_next hs hr) ?_ (ih ht)
    rw [← least_others_le_iff h]
    exact hgo

/-- A row keeps to the largest number of elements. -/
theorem Row.length_le {run : Expr → Matcher} (hrow : d.Row run n s vs t) {b : Nat}
    (hb : b ∈ d.most) (hn : n ≤ b) : n + vs.length ≤ b := by
  induction hrow with
  | full | stop => exact hn
  | stall hopen => exact hopen b hb
  | next hopen _ _ _ ih =>
    have := ih (hopen b hb)
    rw [List.length_cons]
    omega

/-- The elements behind the first as one expression. -/
theorem Row.run_rest (h : ∀ m ∈ d.most, d.least ≤ m) (hs : Sane env s)
    (hrow : d.Row (fun x => x.matcher env (callRule env k)) 1 s vs t) :
    let rest := (d.next.repeated (others d.least d.most h)).matcher env (callRule env k) s
    (d.least ≤ vs.length + 1 → rest = .ok (.matched t.cursor (.list vs)) t) ∧
      (vs.length + 1 < d.least → ∃ u, rest = .ok .failed u) := by
  obtain ⟨u, hc, hcut⟩ := hrow.collects h hs
  have hrest := hc.repeated_eq (d.next.orderly_callRule env k) hs
    (d.next.repeated (others d.least d.most h)).label
  rw [← hcut, State.cutBack_cursor]
  constructor
  · intro henough
    rw [if_pos ((least_others_le_iff h).mpr henough)] at hrest
    exact hrest
  · intro hshort
    rw [if_neg (by rw [least_others_le_iff h]; omega)] at hrest
    exact ⟨_, hrest⟩

/-- Behind a first element there is always a row, unless a part is halted. -/
theorem Row.total (h : ∀ m ∈ d.most, d.least ≤ m) (hs : Sane env s) :
    let rest := d.next.repeated (others d.least d.most h)
    (∃ vs t, d.Row (fun x => x.matcher env (callRule env k)) 1 s vs t) ∨
      ∃ e t, rest.matcher env (callRule env k) s = .error e t ∧
        Expr.HaltedBy env k d.parts rest s e t := by
  intro rest
  rcases Matcher.repeated_cases (d.next.orderly_callRule env k) hs rest.label
      (others d.least d.most h) with ⟨vs, t, hc⟩ | ⟨e, u, left, items, t, hr, hit, hopen, he⟩
  · exact .inl ⟨vs, _, .of_collects h hs hc⟩
  · have hp : rest.Part env (callRule env k) s d.next t := .repeated _ hit hopen
    have ht : Sane env t := ((Carried.kept (kept_sane env k)).part hp hs trivial).1
    rcases d.next_cases k ht with ⟨v', t', hj⟩ | ⟨t', hb⟩ | ⟨e', t', he', hhalt⟩
    · rw [hj.run_next ht] at he
      cases he
    · obtain ⟨u', hu', -⟩ := hb.run_next ht
      rw [hu'] at he
      cases he
    · rw [he'] at he
      cases he
      exact .inr ⟨_, _, hr, .part hp hhalt⟩

/-! ## A first element and the others -/

theorem cons_table (type : ValueType) (v : Value) (vs : List Value) :
    cons ⟨0, type⟩ ⟨1, .list⟩ [some ⟨type, v⟩, some ⟨.list, .list vs⟩] = .ok (.list (v :: vs)) := by
  simp [cons, Slots.take, Slots.find?, Value.items, bind, Except.bind, pure, Except.pure]

/-- A list whose first element matches goes on with a row. -/
theorem Row.run_nonempty (h : ∀ m ∈ d.most, d.least ≤ m) (hs : Sane env s)
    (hel : d.element.matcher env (callRule env k) s = .ok (.matched t.cursor v) t)
    (hrow : d.Row (fun x => x.matcher env (callRule env k)) 1 t vs u) :
    let list := (d.nonempty (others d.least d.most h)).matcher env (callRule env k) s
    (d.least ≤ vs.length + 1 → list = .ok (.matched u.cursor (.list (v :: vs))) u) ∧
      (vs.length + 1 < d.least → ∃ w, list = .ok .failed w) := by
  obtain ⟨ht, -⟩ := (d.element.orderly_callRule env k).lands hs hel
  obtain ⟨henough, hshort⟩ := hrow.run_rest h ht
  have hm : Expr.StepsMatch (fun x => x.matcher env (callRule env k)) [d.element.kept] s [v] t :=
    .cons hel (.nil t)
  constructor
  · intro hle
    have hall : Expr.StepsMatch (fun x => x.matcher env (callRule env k))
        [d.element.kept, (d.next.repeated (others d.least d.most h)).kept] s [v, .list vs] u :=
      .cons hel (.cons (henough hle) (.nil u))
    exact hall.run_sequence_ok hs _ _ rfl (cons_table d.element.type v vs)
  · intro hlt
    obtain ⟨w, hw⟩ := hshort hlt
    exact ⟨_, hm.run_sequence_failed _ _ _ hw⟩

/-- A list whose first element does not match is given up. -/
theorem run_nonempty_failed (c : Count) (hs : Sane env s)
    (hel : d.element.matcher env (callRule env k) s = .ok .failed t) :
    ∃ w, (d.nonempty c).matcher env (callRule env k) s = .ok .failed w ∧
      w.cutBack s.failures.size = t.backTo s := by
  obtain ⟨-, -, fs, -, hf⟩ := (d.element.orderly_callRule env k).lands hs hel
  have hstep : d.element.kept.body.matcher env (callRule env k) s = .ok .failed t := hel
  exact ⟨_, (Expr.StepsMatch.nil s).run_sequence_failed _ _ _ hstep,
    State.cutBack_record hs.cursor hf _⟩

/-- The first element fails, it is followed by a row, or a part is halted. -/
theorem nonempty_cases (k : Nat) (h : ∀ m ∈ d.most, d.least ≤ m) (hs : Sane env s) :
    let run (x : Expr) := x.matcher env (callRule env k)
    let list := d.nonempty (others d.least d.most h)
    (∃ t, run d.element s = .ok .failed t) ∨
      (∃ v t vs u, run d.element s = .ok (.matched t.cursor v) t ∧ d.Row run 1 t vs u) ∨
      ∃ e t, run list s = .error e t ∧ Expr.HaltedBy env k d.parts list s e t := by
  intro run list
  rcases (d.element.orderly_callRule env k).run_cases hs with
    ⟨v, t, hel, ht⟩ | hfail | ⟨e, t, hel⟩
  · rcases Row.total h ht with ⟨vs, u, hrow⟩ | ⟨e, u, he, hhalt⟩
    · exact .inr (.inl ⟨v, t, vs, u, hel, hrow⟩)
    · have hm : Expr.StepsMatch run [d.element.kept] s [v] t := .cons hel (.nil t)
      have hstep : (d.next.repeated (others d.least d.most h)).kept.body.matcher env
          (callRule env k) t = .error e u := he
      refine .inr (.inr ⟨e, u, hm.run_sequence_halted _ _ _ hstep, ?_⟩)
      exact .step hs hm rfl hhalt
  · exact .inl hfail
  · have hstep : d.element.kept.body.matcher env (callRule env k) s = .error e t := hel
    have hm : Expr.StepsMatch run [] s [] s := .nil s
    refine .inr (.inr ⟨e, t, hm.run_sequence_halted _ _ _ hstep, ?_⟩)
    exact .step hs hm rfl (.self d.element_mem_parts hstep)

/-! ## The elements -/

theorem elements_of_none (h : ∀ m ∈ d.most, d.least ≤ m) (hmost : d.most = some 0) :
    d.elements h = .mapTo .list .empty fun _ => .list [] := if_pos hmost

theorem elements_of_zero (h : ∀ m ∈ d.most, d.least ≤ m) (hmost : d.most ≠ some 0)
    (hleast : d.least = 0) :
    d.elements h = .orDefault .list (d.nonempty (others d.least d.most h)) (.list []) := by
  unfold elements
  rw [if_neg hmost, if_pos hleast]

theorem elements_of_pos (h : ∀ m ∈ d.most, d.least ≤ m) (hmost : d.most ≠ some 0)
    (hleast : d.least ≠ 0) : d.elements h = d.nonempty (others d.least d.most h) := by
  unfold elements
  rw [if_neg hmost, if_neg hleast]

/-- Enough elements make a match, with their values and where they end. -/
theorem Greedy.run_elements (h : ∀ m ∈ d.most, d.least ≤ m) (hs : Sane env s)
    (hg : d.Greedy (fun x => x.matcher env (callRule env k)) s vs t)
    (henough : d.least ≤ vs.length) :
    (d.elements h).matcher env (callRule env k) s = .ok (.matched t.cursor (.list vs)) t := by
  cases hg with
  | none hmost =>
    rw [elements_of_none h hmost]
    rfl
  | empty hmost hel =>
    obtain ⟨w, hw, hcut⟩ := run_nonempty_failed (others d.least d.most h) hs hel
    rw [elements_of_zero h hmost (Nat.le_zero.mp henough), Expr.orDefault, Expr.mapTo, Expr.matcher,
      Matcher.run_map, Expr.optional, Expr.matcher, Matcher.run_optional, hw, ← hcut]
    rfl
  | first hmost hel hrow =>
    have hlist := (hrow.run_nonempty h hs hel).1 henough
    by_cases hleast : d.least = 0
    · obtain ⟨-, -, -, -, hf⟩ :=
        ((d.nonempty (others d.least d.most h)).orderly_callRule env k).lands hs hlist
      rw [elements_of_zero h hmost hleast, Expr.orDefault, Expr.mapTo, Expr.matcher,
        Matcher.run_map, Expr.optional, Expr.matcher, Matcher.run_optional, hlist]
      dsimp only
      rw [State.cutBack_size hf]
      rfl
    · rw [elements_of_pos h hmost hleast]
      exact hlist

/-- Too few elements make none. -/
theorem Greedy.run_elements_failed (h : ∀ m ∈ d.most, d.least ≤ m) (hs : Sane env s)
    (hg : d.Greedy (fun x => x.matcher env (callRule env k)) s vs t)
    (hshort : vs.length < d.least) :
    ∃ w, (d.elements h).matcher env (callRule env k) s = .ok .failed w := by
  have hleast : d.least ≠ 0 := Nat.ne_of_gt (Nat.zero_lt_of_lt hshort)
  cases hg with
  | none hmost => exact absurd (Nat.le_zero.mp (h 0 hmost)) hleast
  | empty hmost hel =>
    rw [elements_of_pos h hmost hleast]
    obtain ⟨w, hw, -⟩ := run_nonempty_failed (others d.least d.most h) hs hel
    exact ⟨w, hw⟩
  | first hmost hel hrow =>
    rw [elements_of_pos h hmost hleast]
    exact (hrow.run_nonempty h hs hel).2 hshort

/-- There is always a greedy run of elements, unless a part is halted. -/
theorem Greedy.total (k : Nat) (h : ∀ m ∈ d.most, d.least ≤ m) (hs : Sane env s) :
    (∃ vs t, d.Greedy (fun x => x.matcher env (callRule env k)) s vs t) ∨
      ∃ e t, (d.elements h).matcher env (callRule env k) s = .error e t ∧
        Expr.HaltedBy env k d.parts (d.elements h) s e t := by
  by_cases hmost : d.most = some 0
  · exact .inl ⟨[], s, .none hmost⟩
  rcases nonempty_cases k h hs with
    ⟨t, hel⟩ | ⟨v, t, vs, u, hel, hrow⟩ | ⟨e, t, he, hhalt⟩
  · exact .inl ⟨[], _, .empty hmost hel⟩
  · exact .inl ⟨v :: vs, u, .first hmost hel hrow⟩
  · refine .inr ⟨e, t, ?_⟩
    dsimp only at he
    by_cases hleast : d.least = 0
    · rw [elements_of_zero h hmost hleast]
      refine ⟨?_, .part (.map _ _ _ _) (.part (.optional _ _ _) hhalt)⟩
      rw [Expr.orDefault, Expr.mapTo, Expr.matcher, Matcher.run_map, Expr.optional, Expr.matcher,
        Matcher.run_optional, he]
    · rw [elements_of_pos h hmost hleast]
      exact ⟨he, hhalt⟩

/-- The elements of a list match exactly where a greedy run of them finds enough. -/
theorem elements_matched_iff (h : ∀ m ∈ d.most, d.least ≤ m) (hs : Sane env s) {stop : Nat} :
    (d.elements h).matcher env (callRule env k) s = .ok (.matched stop v) t ↔
      ∃ vs, d.Greedy (fun x => x.matcher env (callRule env k)) s vs t ∧ d.least ≤ vs.length ∧
        v = .list vs ∧ stop = t.cursor := by
  constructor
  · intro hr
    rcases Greedy.total k h hs with ⟨vs, t', hg⟩ | ⟨e, t', he, -⟩
    · by_cases henough : d.least ≤ vs.length
      · rw [hg.run_elements h hs henough] at hr
        cases hr
        exact ⟨vs, hg, henough, rfl, rfl⟩
      · obtain ⟨w, hw⟩ := hg.run_elements_failed h hs (by omega)
        rw [hw] at hr
        cases hr
    · rw [he] at hr
      cases hr
  · rintro ⟨vs, hg, henough, rfl, rfl⟩
    exact hg.run_elements h hs henough

/-- Only an element or a separator halts the elements of a list. -/
theorem elements_halted (h : ∀ m ∈ d.most, d.least ≤ m) (hs : Sane env s)
    (hr : (d.elements h).matcher env (callRule env k) s = .error e t) :
    Expr.HaltedBy env k d.parts (d.elements h) s e t := by
  rcases Greedy.total k h hs with ⟨vs, t', hg⟩ | ⟨e', t', he, hhalt⟩
  · by_cases henough : d.least ≤ vs.length
    · rw [hg.run_elements h hs henough] at hr
      cases hr
    · obtain ⟨w, hw⟩ := hg.run_elements_failed h hs (by omega)
      rw [hw] at hr
      cases hr
  · rw [he] at hr
    cases hr
    exact hhalt

theorem Greedy.length_le {run : Expr → Matcher} (hg : d.Greedy run s vs t) {b : Nat}
    (hb : b ∈ d.most) : vs.length ≤ b := by
  cases hg with
  | none | empty => exact Nat.zero_le b
  | first hmost _ hrow =>
    have hpos : 1 ≤ b := by
      rw [Nat.one_le_iff_ne_zero]
      rintro rfl
      exact hmost hb
    have := hrow.length_le hb hpos
    rw [List.length_cons]
    omega

/-! ## What stands around the elements -/

/-- An expression that may be absent is a row of at most one skipped step. -/
theorem skips_iff {run : Expr → Matcher} {z : Option Expr} :
    Skips run z s t ↔ ∃ vs, Expr.StepsMatch run (z.toList.map Expr.skipped) s vs t := by
  cases z with
  | none =>
    constructor
    · intro h
      cases h
      exact ⟨[], .nil s⟩
    · rintro ⟨vs, hm⟩
      cases hm
      exact .absent s
  | some y =>
    constructor
    · intro h
      cases h with
      | @present _ _ _ v hy => exact ⟨[v], .cons hy (.nil t)⟩
    · rintro ⟨vs, hm⟩
      cases hm with
      | cons hy hrest =>
        cases hrest
        exact .present hy

theorem Skips.sane (hs : Sane env s) {z : Option Expr}
    (h : Skips (fun x => x.matcher env (callRule env k)) z s t) : Sane env t := by
  obtain ⟨vs, hm⟩ := skips_iff.mp h
  exact (hm.lands hs).1

theorem enclose_of_none (x : Expr) (hopening : d.opening = none) (hclosing : d.closing = none) :
    d.enclose x = x := by
  simp [enclose, hopening, hclosing]

theorem enclose_of_some (x : Expr) (h : ¬ (d.opening = none ∧ d.closing = none)) :
    d.enclose x = .sequence .list
      (d.opening.toList.map Expr.skipped ++ x.kept :: d.closing.toList.map Expr.skipped)
      { apply := (Recipe.single
          (.take ⟨(d.opening.toList.map Expr.skipped).length, x.type⟩)).build } := by
  unfold enclose
  rw [if_neg]
  simpa using h

/-- The steps of an enclosed list. -/
theorem enclosed_iff {run : Expr → Matcher} :
    Expr.StepsMatch run
        (d.opening.toList.map Expr.skipped ++ x.kept :: d.closing.toList.map Expr.skipped) s vs w ↔
      ∃ ws v ws' t u, vs = ws ++ v :: ws' ∧
        Expr.StepsMatch run (d.opening.toList.map Expr.skipped) s ws t ∧
        run x t = .ok (.matched u.cursor v) u ∧
        Expr.StepsMatch run (d.closing.toList.map Expr.skipped) u ws' w := by
  rw [Expr.StepsMatch.append_iff]
  constructor
  · rintro ⟨ws, vs', t, rfl, hopening, hrest⟩
    cases hrest with
    | cons h hclosing => exact ⟨ws, _, _, t, _, rfl, hopening, h, hclosing⟩
  · rintro ⟨ws, v, ws', t, u, rfl, hopening, h, hclosing⟩
    exact ⟨ws, v :: ws', t, rfl, hopening, .cons h hclosing⟩

/-- Opening, elements and closing in a row are one match of the list, with the value of the
elements. -/
theorem run_enclosed (hs : Sane env s) {ws ws' : List Value}
    (hopening : Expr.StepsMatch (fun x => x.matcher env (callRule env k))
      (d.opening.toList.map Expr.skipped) s ws t)
    (h : x.matcher env (callRule env k) t = .ok (.matched u.cursor v) u)
    (hclosing : Expr.StepsMatch (fun x => x.matcher env (callRule env k))
      (d.closing.toList.map Expr.skipped) u ws' w) :
    (d.enclose x).matcher env (callRule env k) s = .ok (.matched w.cursor v) w := by
  by_cases hbare : d.opening = none ∧ d.closing = none
  · obtain ⟨hno, hnc⟩ := hbare
    rw [hno] at hopening
    rw [hnc] at hclosing
    rw [enclose_of_none x hno hnc]
    cases hopening
    cases hclosing
    exact h
  · have hm := enclosed_iff.mpr ⟨ws, v, ws', t, u, rfl, hopening, h, hclosing⟩
    rw [enclose_of_some x hbare]
    exact hm.run_sequence_ok hs _ _ rfl
      (Recipe.build_single_take (Step.find?_table_append hopening.length_eq rfl v))

/-- A list in brackets matches exactly where the opening, the elements and the closing do in a row.
-/
theorem enclose_matched_iff (hs : Sane env s) {stop : Nat} :
    let run (x : Expr) := x.matcher env (callRule env k)
    run (d.enclose x) s = .ok (.matched stop v) w ↔
      ∃ t u, Skips run d.opening s t ∧ run x t = .ok (.matched u.cursor v) u ∧
        Skips run d.closing u w ∧ stop = w.cursor := by
  intro run
  constructor
  · intro hr
    by_cases hbare : d.opening = none ∧ d.closing = none
    · obtain ⟨hno, hnc⟩ := hbare
      rw [enclose_of_none x hno hnc] at hr
      obtain ⟨-, rfl, -⟩ := (x.orderly_callRule env k).lands hs hr
      exact ⟨s, w, hno ▸ .absent s, hr, hnc ▸ .absent w, rfl⟩
    · have hseq := hr
      rw [enclose_of_some x hbare] at hseq
      obtain ⟨vs, w', hm⟩ := Expr.StepsMatch.of_matched hs hseq
      obtain ⟨ws, v', ws', t, u, -, hopening, hx, hclosing⟩ := enclosed_iff.mp hm
      rw [show run (d.enclose x) s = _ from run_enclosed hs hopening hx hclosing] at hr
      cases hr
      exact ⟨t, u, skips_iff.mpr ⟨ws, hopening⟩, hx, skips_iff.mpr ⟨ws', hclosing⟩, rfl⟩
  · rintro ⟨t, u, hopening, hx, hclosing, rfl⟩
    obtain ⟨ws, hopening⟩ := skips_iff.mp hopening
    obtain ⟨ws', hclosing⟩ := skips_iff.mp hclosing
    exact run_enclosed hs hopening hx hclosing

/-- An enclosed list is halted by what is enclosed or around it. -/
theorem enclose_halted (hs : Sane env s)
    (hx : ∀ t, Sane env t → ∀ e u, x.matcher env (callRule env k) t = .error e u →
      Expr.HaltedBy env k d.parts x t e u)
    (h : (d.enclose x).matcher env (callRule env k) s = .error e w) :
    Expr.HaltedBy env k d.parts (d.enclose x) s e w := by
  by_cases hbare : d.opening = none ∧ d.closing = none
  · rw [enclose_of_none x hbare.1 hbare.2] at h ⊢
    exact hx s hs e w h
  · have hseq := h
    rw [enclose_of_some x hbare] at hseq ⊢
    rcases Expr.StepsMatch.of_halted hs hseq with
      ⟨done, step, rest, vs, t, hsteps, hm, he⟩ | ⟨vs, t, f, hm, hf⟩
    · have hstep : Expr.HaltedBy env k d.parts step.body t e w := by
        have hmem : step ∈ d.opening.toList.map Expr.skipped ++
            x.kept :: d.closing.toList.map Expr.skipped := by simp [hsteps]
        simp only [List.mem_append, List.mem_cons, List.mem_map, Option.mem_toList] at hmem
        rcases hmem with ⟨y, hy, rfl⟩ | rfl | ⟨y, hy, rfl⟩
        · exact .self (by simp [parts, Expr.skipped, hy]) he
        · exact hx t (hm.lands hs).1 e w he
        · exact .self (by simp [parts, Expr.skipped, hy]) he
      exact .step hs hm hsteps hstep
    · obtain ⟨ws, v, ws', t', u, rfl, hopening, hel, hclosing⟩ := enclosed_iff.mp hm
      rw [run_enclosed hs hopening hel hclosing] at h
      cases h

/-! ## The expression of a list -/

/-- With a range that is not empty, a list has an expression. -/
theorem toExpr?_eq_ok (h : ∀ m ∈ d.most, d.least ≤ m) :
    d.toExpr? = .ok (d.enclose (d.elements h)) := by
  unfold toExpr?
  split
  next => rfl
  next m hm => rw [dif_pos (h m hm)]

/-- Only an empty range is refused, and the defect names its ends. -/
theorem toExpr?_eq_error_iff {defect : Defect} :
    d.toExpr? = .error defect ↔
      ∃ m, d.most = some m ∧ m < d.least ∧ defect = .emptyRange d.least m := by
  constructor
  · intro he
    unfold toExpr? at he
    split at he
    next => cases he
    next m hm =>
      split at he
      next => cases he
      next hlt =>
        cases he
        exact ⟨m, hm, Nat.lt_of_not_le hlt, rfl⟩
  · rintro ⟨m, hm, hlt, rfl⟩
    unfold toExpr?
    split
    next hnone =>
      rw [hnone] at hm
      cases hm
    next m' hm' =>
      rw [hm] at hm'
      cases hm'
      rw [dif_neg (Nat.not_le_of_lt hlt)]

/-- A list that has an expression has a range that is not empty. -/
theorem ordered_of_toExpr? (hx : d.toExpr? = .ok x) : ∀ m ∈ d.most, d.least ≤ m := by
  intro m hm
  by_contra hlt
  rw [toExpr?_eq_error_iff.mpr ⟨m, hm, Nat.lt_of_not_le hlt, rfl⟩] at hx
  cases hx

/-- The bounds for the elements behind the first are not refused as a range, if they fit in a
word. -/
theorem ofBounds_others {least : Nat} {most : Option Nat} (h : ∀ m ∈ most, least ≤ m)
    (hleast : least < UInt64.size) (hmost : ∀ m ∈ most, m < UInt64.size) :
    Count.ofBounds (.included (.ofNat (least - 1)))
        (most.elim .unbounded fun m => .included (.ofNat (m - 1))) =
      .ok (others least most h) := by
  have hlow : (UInt64.ofNat (least - 1)).toNat = least - 1 :=
    UInt64.toNat_ofNat_of_lt (by omega)
  cases most with
  | none => simp [Count.ofBounds, Count.lowest, others, hlow]
  | some m =>
    have hle := h m rfl
    have hm := hmost m rfl
    have hhigh : (UInt64.ofNat (m - 1)).toNat = m - 1 := UInt64.toNat_ofNat_of_lt (by omega)
    have hord : least - 1 ≤ m - 1 := by omega
    simp [Count.ofBounds, Count.ofBounds.atMost, Count.lowest, others, hlow, hhigh, hord]

/-- Where no element is allowed, the element does not matter. -/
theorem toExpr?_of_none (hmost : d.most = some 0) (y : Expr) :
    { d with element := y }.toExpr? = d.toExpr? := by
  by_cases hle : d.least ≤ 0
  · have h : ∀ m ∈ d.most, d.least ≤ m := by simpa [hmost] using hle
    rw [toExpr?_eq_ok h, toExpr?_eq_ok (d := { d with element := y }) h, elements_of_none h hmost,
      elements_of_none (d := { d with element := y }) h hmost]
    rfl
  · have hlt : 0 < d.least := Nat.lt_of_not_le hle
    rw [toExpr?_eq_error_iff.mpr ⟨0, hmost, hlt, rfl⟩]
    exact toExpr?_eq_error_iff.mpr ⟨0, hmost, hlt, rfl⟩

end Delimited

end

/-- Delimited lists are what they are said to be. Their bounds are refused exactly if they are out
of order, and nothing else is ever refused. Wherever a session evaluates a list, it matches exactly
if the opening, a greedy run of elements within the bounds and the closing match one after the
other, and its value is the list of their values. If no element is allowed, the element is no part
of the expression. A list is halted only if one of its parts is. -/
theorem Session.delimited_lists (d : Delimited) :
    (∀ defect, d.toExpr? = .error defect ↔
      ∃ m, d.most = some m ∧ m < d.least ∧ defect = .emptyRange d.least m) ∧
    (∀ h : ∀ m ∈ d.most, d.least ≤ m, d.most ≠ some 0 → (∀ m ∈ d.most, 0 < m) ∧
      (d.least < UInt64.size → (∀ m ∈ d.most, m < UInt64.size) →
        d.next.repeated? (.included (.ofNat (d.least - 1)))
            (d.most.elim .unbounded fun m => .included (.ofNat (m - 1))) =
          .ok (d.next.repeated (Delimited.others d.least d.most h)))) ∧
    (d.most = some 0 → ∀ y, { d with element := y }.toExpr? = d.toExpr?) ∧
    ∀ x, d.toExpr? = .ok x → ∀ text config g k s, Session.Evaluates text config g k x s →
      let env := Env.ofText text config
      let run (x : Expr) := x.matcher env (callRule env k)
      (∀ stop v w, run x s = .ok (.matched stop v) w ↔
        ∃ t vs u, Delimited.Skips run d.opening s t ∧ d.Greedy run t vs u ∧
          d.least ≤ vs.length ∧ (∀ m ∈ d.most, vs.length ≤ m) ∧
          Delimited.Skips run d.closing u w ∧ v = .list vs ∧ stop = w.cursor) ∧
      ∀ e w, run x s = .error e w → Expr.HaltedBy env k d.parts x s e w := by
  refine ⟨fun defect => Delimited.toExpr?_eq_error_iff, fun h hmost => ⟨?_, ?_⟩,
    fun hmost y => Delimited.toExpr?_of_none hmost y, ?_⟩
  · intro m hm
    refine Nat.pos_of_ne_zero ?_
    rintro rfl
    exact hmost hm
  · intro hleast hword
    rw [Expr.repeated?, Delimited.ofBounds_others h hleast hword]
    rfl
  · intro x hx text config g k s hv env run
    have hs : Sane env s := hv.sane
    have h := Delimited.ordered_of_toExpr? hx
    rw [Delimited.toExpr?_eq_ok h] at hx
    cases hx
    refine ⟨fun stop v w => ?_, fun e w he => ?_⟩
    · refine (Delimited.enclose_matched_iff hs).trans ⟨?_, ?_⟩
      · rintro ⟨t, u, hopening, hel, hclosing, rfl⟩
        obtain ⟨vs, hg, henough, rfl, -⟩ :=
          (Delimited.elements_matched_iff h (hopening.sane hs)).mp hel
        exact ⟨t, vs, u, hopening, hg, henough, fun m hm => hg.length_le hm, hclosing, rfl, rfl⟩
      · rintro ⟨t, vs, u, hopening, hg, henough, -, hclosing, rfl, rfl⟩
        exact ⟨t, u, hopening, hg.run_elements h (hopening.sane hs) henough, hclosing, rfl⟩
    · exact Delimited.enclose_halted hs (fun t ht e u => Delimited.elements_halted h ht) he

/-- Digits with commas between them behind a bracket, at least one and at most three. -/
def Delimited.digits : Delimited where
  element := .builtin .digit
  separator := some (.charWhere (· == ','))
  opening := some (.charWhere (· == '('))
  least := 1
  most := some 3

theorem Delimited.digits_ordered : ∀ m ∈ digits.most, digits.least ≤ m := by simp [digits]

/-- Behind the second digit there is another comma, but no digit. The comma is no part of the
list. -/
theorem Session.delimited_lists_digits :
    let env := Env.ofText "(1,2,x" { limit := some 0 }
    let s := State.start env {}
    let run (x : Expr) := x.matcher env (callRule env 0)
    ∃ x, Delimited.digits.toExpr? = .ok x ∧
      Session.Evaluates "(1,2,x" { limit := some 0 } {} 0 x s ∧
      ∃ t vs u, Delimited.Skips run Delimited.digits.opening s t ∧
        Delimited.digits.Greedy run t vs u ∧ vs.length = 2 ∧ u.cursor = 4 := by
  intro env s run
  have hx := Delimited.toExpr?_eq_ok Delimited.digits_ordered
  have hv : Session.Evaluates "(1,2,x" { limit := some 0 } {} 0
      (Delimited.digits.enclose (Delimited.digits.elements Delimited.digits_ordered)) s :=
    ⟨[], _, [], .here⟩
  have hends : Result.meets (fun o _ => o.toOption.map (·.items.length) = some 2 ∧
      o.stopFrom 0 = 4) (run (Delimited.digits.enclose
        (Delimited.digits.elements Delimited.digits_ordered)) s) = true := by
    decide +kernel
  obtain ⟨o, w, hr, htest⟩ := Result.exists_of_meets hends
  obtain ⟨hlen, hstop⟩ := of_decide_eq_true htest
  cases o with
  | failed => cases hlen
  | matched stop v =>
    obtain ⟨hmatch, -⟩ := (Session.delimited_lists Delimited.digits).2.2.2 _ hx _ _ _ _ _ hv
    obtain ⟨t, vs, u, hopening, hg, -, -, hclosing, rfl, rfl⟩ := (hmatch stop v w).mp hr
    cases hclosing
    exact ⟨_, hx, hv, t, vs, w, hopening, hg, Option.some.inj hlen, hstop⟩

end Packrat
