import Packrat.Expr.Build
import Packrat.Proofs.Visits

/-!
# Steps and values of a sequence

A sequence evaluates its steps in order, each from where the one before it has ended, up to the
first that does not match. If all match, its build function is called on a table with one slot for
each step (`Step.table`).

A recipe reads such a table item by item. What it misses there can be told from the steps and the
items alone (`Handle.Missing`), whatever the steps have matched: a value is missing from the table
itself, or an earlier item has taken it (`Slots.Lacks`). So a recipe is halted at the first item
whose value is missing, and there is none if it only reads what its own sequence keeps.
-/

namespace Packrat

/-! ## Steps -/

/-- The steps match one after the other, each from where the one before it has ended, with the given
values. -/
inductive Expr.StepsMatch (run : Expr → Matcher) :
    List (Step Expr) → State → List Value → State → Prop where
  | nil (s : State) : StepsMatch run [] s [] s
  | cons {step : Step Expr} {rest : List (Step Expr)} {s t u : State} {v : Value} {vs : List Value}
      (h : run step.body s = .ok (.matched t.cursor v) t) (hrest : StepsMatch run rest t vs u) :
      StepsMatch run (step :: rest) s (v :: vs) u

/-- The slots of steps that have matched with the given values: what a kept step has produced, under
the type it declares, and nothing for a skipped one. -/
def Step.table (steps : List (Step Expr)) (vs : List Value) : Slots :=
  List.zipWith (fun step v => step.store.map (⟨·, v⟩)) steps vs

section

variable {env : Env} {k : Nat} {s t u : State} {done steps rest : List (Step Expr)}
  {step : Step Expr} {vs : List Value}

theorem State.cutBack_size (hf : t.failures = s.failures) : t.cutBack s.failures.size = t := by
  rw [← hf]
  simp [State.cutBack]

namespace Expr.StepsMatch

theorem length_eq {run : Expr → Matcher} (h : StepsMatch run steps s vs t) :
    vs.length = steps.length := by
  induction h with
  | nil s => rfl
  | cons _ _ ih => rw [List.length_cons, List.length_cons, ih]

/-- Steps match in a row if the first ones do and then the rest. -/
theorem append_iff {run : Expr → Matcher} :
    StepsMatch run (done ++ rest) s vs u ↔
      ∃ ws ws' t, vs = ws ++ ws' ∧ StepsMatch run done s ws t ∧ StepsMatch run rest t ws' u := by
  induction done generalizing s vs with
  | nil =>
    constructor
    · intro h
      exact ⟨[], vs, s, rfl, .nil s, h⟩
    · rintro ⟨ws, ws', t, rfl, h, h'⟩
      cases h
      exact h'
  | cons step done ih =>
    constructor
    · intro h
      cases h with
      | cons h hrest =>
        obtain ⟨ws, ws', t, rfl, hdone, hrest'⟩ := ih.mp hrest
        exact ⟨_ :: ws, ws', t, rfl, .cons h hdone, hrest'⟩
    · rintro ⟨ws, ws', t, rfl, hdone, hrest⟩
      cases hdone with
      | cons h hdone => exact .cons h (ih.mpr ⟨_, _, t, rfl, hdone, hrest⟩)

/-- After steps that have matched, the sequence goes on with the others. -/
theorem runSteps_append {call : RuleId → Matcher}
    (h : StepsMatch (fun x => x.matcher env call) done s vs t) (rest : List (Step Expr)) :
    Matcher.runSteps (stepMatchers env call (done ++ rest)) s =
      match Matcher.runSteps (stepMatchers env call rest) t with
      | .ok none u => .ok none u
      | .ok (some slots) u => .ok (some (Step.table done vs ++ slots)) u
      | .error e u => .error e u := by
  induction h with
  | nil s =>
    rw [List.nil_append]
    cases Matcher.runSteps (stepMatchers env call rest) s with
    | error e u => rfl
    | ok slots u => cases slots <;> rfl
  | @cons step done s t t' v vs h _ ih =>
    rw [List.cons_append, stepMatchers, Matcher.run_runSteps_cons]
    dsimp only
    rw [h]
    dsimp only
    rw [ih]
    cases Matcher.runSteps (stepMatchers env call rest) t' with
    | error e u => rfl
    | ok slots u => cases slots <;> rfl

theorem runSteps {call : RuleId → Matcher}
    (h : StepsMatch (fun x => x.matcher env call) steps s vs t) :
    Matcher.runSteps (stepMatchers env call steps) s = .ok (some (Step.table steps vs)) t := by
  have happ := h.runSteps_append []
  rw [List.append_nil, stepMatchers, Matcher.run_runSteps_nil] at happ
  dsimp only at happ
  rw [List.append_nil] at happ
  exact happ

/-- Steps that match leave the failures as they find them. -/
theorem lands (hs : Sane env s)
    (h : StepsMatch (fun x => x.matcher env (callRule env k)) steps s vs t) :
    Sane env t ∧ t.failures = s.failures := by
  induction h with
  | nil s => exact ⟨hs, rfl⟩
  | cons h _ ih =>
    obtain ⟨ht, hland⟩ := (Expr.orderly_callRule env k _).lands hs h
    obtain ⟨hu, hf⟩ := ih ht
    exact ⟨hu, hf.trans hland.2.2.2⟩

/-- Where all steps have matched and no failure has been added to those at the start, the sequence
calls its build function on their table. -/
theorem run_sequence_of_failures_eq {call : RuleId → Matcher} (label : String) (type : ValueType)
    (build : Hook Slots (Except Fault Value))
    (h : StepsMatch (fun x => x.matcher env call) steps s vs t) (hf : t.failures = s.failures) :
    (sequenceAs label type steps build).matcher env call s =
      let u := t.note build.journal (fun _ => "run") (Step.table steps vs)
      match build.apply (Step.table steps vs) with
      | .ok v => .ok (.matched t.cursor v) u
      | .error f => .error (.fault f) u := by
  have hrun : (sequenceAs label type steps build).matcher env call s = _ :=
    Matcher.run_sequence env label (stepMatchers env call steps) build s
  rw [h.runSteps] at hrun
  dsimp only at hrun
  rw [State.cutBack_size hf, State.note_cursor] at hrun
  exact hrun

/-- Where all steps have matched, the sequence calls its build function on their table. -/
theorem run_sequence (hs : Sane env s) (label : String) (type : ValueType)
    (build : Hook Slots (Except Fault Value))
    (h : StepsMatch (fun x => x.matcher env (callRule env k)) steps s vs t) :
    (sequenceAs label type steps build).matcher env (callRule env k) s =
      let u := t.note build.journal (fun _ => "run") (Step.table steps vs)
      match build.apply (Step.table steps vs) with
      | .ok v => .ok (.matched t.cursor v) u
      | .error f => .error (.fault f) u :=
  h.run_sequence_of_failures_eq label type build (h.lands hs).2

/-- A sequence whose steps match comes to the value that is built from their table. -/
theorem run_sequence_ok (hs : Sane env s) (label : String) (type : ValueType)
    {build : Hook Slots (Except Fault Value)} (hjournal : build.journal = none)
    (h : StepsMatch (fun x => x.matcher env (callRule env k)) steps s vs t) {v : Value}
    (hbuild : build.apply (Step.table steps vs) = .ok v) :
    (sequenceAs label type steps build).matcher env (callRule env k) s =
      .ok (.matched t.cursor v) t := by
  rw [h.run_sequence hs, hbuild, hjournal]
  rfl

/-- A step that fails makes the sequence fail, behind its failures. -/
theorem run_sequence_failed {call : RuleId → Matcher} (label : String) (type : ValueType)
    (build : Hook Slots (Except Fault Value))
    (h : StepsMatch (fun x => x.matcher env call) done s vs t)
    (hstep : step.body.matcher env call t = .ok .failed u) :
    (sequenceAs label type (done ++ step :: rest) build).matcher env call s =
      .ok .failed ((u.moveTo env s.cursor).record (.wrong label)) := by
  rw [matcher, Matcher.run_sequence, h.runSteps_append, stepMatchers, Matcher.run_runSteps_cons]
  dsimp only
  rw [hstep]

/-- A step that is halted halts the sequence. -/
theorem run_sequence_halted {call : RuleId → Matcher} (label : String) (type : ValueType)
    (build : Hook Slots (Except Fault Value))
    (h : StepsMatch (fun x => x.matcher env call) done s vs t) {e : Halt}
    (hstep : step.body.matcher env call t = .error e u) :
    (sequenceAs label type (done ++ step :: rest) build).matcher env call s =
      .error e u := by
  rw [matcher, Matcher.run_sequence, h.runSteps_append, stepMatchers, Matcher.run_runSteps_cons]
  dsimp only
  rw [hstep]

/-- The steps of a sequence all match, or there is a first one that fails or is halted. -/
theorem exists_end (steps : List (Step Expr)) (hs : Sane env s) :
    let run (x : Expr) := x.matcher env (callRule env k)
    (∃ vs t, StepsMatch run steps s vs t) ∨
      ∃ done step rest vs t, steps = done ++ step :: rest ∧ StepsMatch run done s vs t ∧
        ((∃ u, run step.body t = .ok .failed u) ∨ ∃ e u, run step.body t = .error e u) := by
  intro run
  induction steps generalizing s with
  | nil => exact .inl ⟨[], s, .nil s⟩
  | cons step rest ih =>
    rcases (step.body.orderly_callRule env k).run_cases hs with ⟨v, t, hr, ht⟩ | hfail | hhalt
    · rcases ih ht with ⟨vs, u, hm⟩ | ⟨done, step', rest', vs, u, rfl, hm, hend⟩
      · exact .inl ⟨v :: vs, u, .cons hr hm⟩
      · exact .inr ⟨step :: done, step', rest', v :: vs, u, rfl, .cons hr hm, hend⟩
    · exact .inr ⟨[], step, rest, [], s, rfl, .nil s, .inl hfail⟩
    · exact .inr ⟨[], step, rest, [], s, rfl, .nil s, .inr hhalt⟩

theorem of_matched (hs : Sane env s) {label : String} {type : ValueType}
    {build : Hook Slots (Except Fault Value)} {stop : Nat} {v : Value}
    (h : (sequenceAs label type steps build).matcher env (callRule env k) s =
      .ok (.matched stop v) u) :
    ∃ vs t, StepsMatch (fun x => x.matcher env (callRule env k)) steps s vs t := by
  rcases exists_end (k := k) steps hs with
    hall | ⟨done, step, rest, vs, t, rfl, hm, ⟨w, hw⟩ | ⟨e, w, hw⟩⟩
  · exact hall
  · rw [hm.run_sequence_failed label type build hw] at h
    cases h
  · rw [hm.run_sequence_halted label type build hw] at h
    cases h

/-- A sequence is halted by a step or by its build function. -/
theorem of_halted (hs : Sane env s) {label : String} {type : ValueType}
    {build : Hook Slots (Except Fault Value)} {e : Halt}
    (h : (sequenceAs label type steps build).matcher env (callRule env k) s = .error e u) :
    let run (x : Expr) := x.matcher env (callRule env k)
    (∃ done step rest vs t, steps = done ++ step :: rest ∧ StepsMatch run done s vs t ∧
        run step.body t = .error e u) ∨
      ∃ vs t f, StepsMatch run steps s vs t ∧ build.apply (Step.table steps vs) = .error f := by
  intro run
  rcases exists_end (k := k) steps hs with
    ⟨vs, t, hm⟩ | ⟨done, step, rest, vs, t, rfl, hm, ⟨w, hw⟩ | ⟨e', w, hw⟩⟩
  · rw [hm.run_sequence hs] at h
    cases hb : build.apply (Step.table steps vs) with
    | error f => exact .inr ⟨vs, t, f, hm, hb⟩
    | ok v =>
      rw [hb] at h
      cases h
  · rw [hm.run_sequence_failed label type build hw] at h
    cases h
  · rw [hm.run_sequence_halted label type build hw] at h
    cases h
    exact .inl ⟨done, step, rest, vs, t, rfl, hm, hw⟩

theorem of_runSteps {slots : Slots} (hs : Sane env s)
    (h : Matcher.runSteps (stepMatchers env (callRule env k) steps) s = .ok (some slots) t) :
    ∃ vs, StepsMatch (fun x => x.matcher env (callRule env k)) steps s vs t := by
  rcases exists_end (k := k) steps hs with
    ⟨vs, u, hm⟩ | ⟨done, step, rest, vs, u, rfl, hm, hend⟩
  · rw [hm.runSteps] at h
    cases h
    exact ⟨vs, hm⟩
  · rw [hm.runSteps_append, stepMatchers, Matcher.run_runSteps_cons] at h
    dsimp only at h
    rcases hend with ⟨w, hw⟩ | ⟨e, w, hw⟩
    · dsimp only at hw
      rw [hw] at h
      cases h
    · dsimp only at hw
      rw [hw] at h
      cases h

end Expr.StepsMatch

/-- A sequence evaluates a step exactly where all steps in front of it have matched. -/
theorem Expr.part_sequence_iff (label : String) (type : ValueType)
    (build : Hook Slots (Except Fault Value)) (hs : Sane env s) {y : Expr} :
    (sequenceAs label type steps build).Part env (callRule env k) s y t ↔
      ∃ done store rest vs, steps = done ++ ⟨y, store⟩ :: rest ∧
        StepsMatch (fun x => x.matcher env (callRule env k)) done s vs t := by
  constructor
  · intro h
    cases h with
    | @step _ _ _ done _ store rest slots _ _ h =>
      obtain ⟨vs, hm⟩ := StepsMatch.of_runSteps hs h
      exact ⟨done, store, rest, vs, rfl, hm⟩
  · rintro ⟨done, store, rest, vs, rfl, hm⟩
    exact .step label type build y store rest hm.runSteps

end

/-! ## Recipes -/

/-- The handle of the step that an item reads. -/
def Item.handle? : Item Handle → Option Handle
  | .get h | .take h => some h
  | .const _ => none

/-- The items of a recipe, in the order in which they are read. -/
def Recipe.items : Recipe Handle → List (Item Handle)
  | .list items | .tagged _ items => items
  | .single item => [item]

/-- The item of a list that stands behind `before` reads through the handle `h`. -/
def Item.Reads (items before : List (Item Handle)) (h : Handle) : Prop :=
  ∃ item after, items = before ++ item :: after ∧ item.handle? = some h

/-- Why there is no value for a handle in a sequence, after the items `earlier` were read. -/
inductive Handle.Missing (steps : List (Step Expr)) (earlier : List (Item Handle)) (h : Handle) :
    Prop where
  /-- There is no such step. -/
  | outOfRange (hlen : steps.length ≤ h.step)
  /-- The value of the step is not kept. -/
  | skipped {step : Step Expr} (hstep : steps[h.step]? = some step) (hstore : step.store = none)
  /-- An earlier item has taken the value. -/
  | taken {h' : Handle} (hmem : .take h' ∈ earlier) (hstep : h'.step = h.step)
  /-- The step has another type. -/
  | otherType {step : Step Expr} {type : ValueType} (hstep : steps[h.step]? = some step)
      (hstore : step.store = some type) (htype : type ≠ h.type)

/-- The slots have no value for a handle any more, after the items `earlier` were read. -/
def Slots.Lacks (slots : Slots) (earlier : List (Item Handle)) (h : Handle) : Prop :=
  slots.find? h = none ∨ ∃ h', Item.take h' ∈ earlier ∧ h'.step = h.step

/-- The values in the slots, in order. -/
def Slots.values (slots : Slots) : List Value := slots.filterMap fun slot => slot.map (·.value)

section

variable {slots : Slots} {h : Handle} {item : Item Handle} {items before : List (Item Handle)}
  {steps : List (Step Expr)} {vs : List Value}

theorem Slots.find?_set_none (slots : Slots) (i : Nat) (h : Handle) :
    Slots.find? (slots.set i none) h = if i = h.step then none else slots.find? h := by
  unfold find?
  rw [List.getElem?_set]
  by_cases hi : i = h.step
  · subst hi
    by_cases hlt : h.step < slots.length <;> simp [hlt]
  · simp [hi]

theorem Item.reads_nil : ¬ Item.Reads [] before h := by
  rintro ⟨item, after, heq, -⟩
  simp at heq

theorem Item.reads_cons : Item.Reads (item :: items) before h ↔
    (before = [] ∧ item.handle? = some h) ∨
      ∃ before', before = item :: before' ∧ Item.Reads items before' h := by
  constructor
  · rintro ⟨item', after, heq, hh⟩
    cases before with
    | nil =>
      cases heq
      exact .inl ⟨rfl, hh⟩
    | cons item'' before' =>
      cases heq
      exact .inr ⟨before', rfl, item', after, rfl, hh⟩
  · rintro (⟨rfl, hh⟩ | ⟨before', rfl, item', after, rfl, hh⟩)
    · exact ⟨item, items, rfl, hh⟩
    · exact ⟨item', after, rfl, hh⟩

/-- An item is read if the slots have a value for it, and then lack what it takes. -/
theorem Item.read_cases (slots : Slots) (item : Item Handle) :
    (∃ h, item.handle? = some h ∧ slots.find? h = none ∧
        item.read slots = .error (.missingValue h.step)) ∨
      ∃ v slots', item.read slots = .ok (v, slots') ∧
        (∀ h, item.handle? = some h → slots.find? h ≠ none) ∧
        ∀ before h, slots'.Lacks before h ↔ slots.Lacks (item :: before) h := by
  cases item with
  | const v =>
    refine .inr ⟨v, slots, rfl, ?_, fun before h => ?_⟩
    · rintro _ ⟨⟩
    · simp [Slots.Lacks]
  | get h =>
    cases hf : slots.find? h with
    | none => exact .inl ⟨h, rfl, hf, by simp [read, Slots.get, hf, Except.map]⟩
    | some v =>
      refine .inr ⟨v, slots, by simp [read, Slots.get, hf, Except.map], ?_, fun before h => ?_⟩
      · rintro _ ⟨⟩
        simp [hf]
      · simp [Slots.Lacks]
  | take h =>
    cases hf : slots.find? h with
    | none => exact .inl ⟨h, rfl, hf, by simp [read, Slots.take, hf]⟩
    | some v =>
      refine .inr ⟨v, slots.set h.step none, by simp [read, Slots.take, hf], ?_,
        fun before h' => ?_⟩
      · rintro _ ⟨⟩
        simp [hf]
      · -- a value that is taken leaves its slot empty, and no other
        by_cases hstep : h.step = h'.step
        · simp [Slots.Lacks, Slots.find?_set_none, hstep]
        · simp [Slots.Lacks, Slots.find?_set_none, hstep]

/-- Reading a list of items goes well if nothing is lacking, and otherwise stops at the first item
for which something is. -/
theorem Item.readAll_spec (slots : Slots) (items : List (Item Handle)) :
    match Item.readAll slots items with
    | .ok _ => ∀ before h, Item.Reads items before h → ¬ slots.Lacks before h
    | .error f => ∃ before h, Item.Reads items before h ∧ slots.Lacks before h ∧
        (∀ before' h', Item.Reads items before' h' → slots.Lacks before' h' →
          before.length ≤ before'.length) ∧ f = .missingValue h.step := by
  induction items generalizing slots with
  | nil => exact fun _ _ hr => absurd hr Item.reads_nil
  | cons item rest ih =>
    rcases Item.read_cases slots item with ⟨h, hh, hf, hr⟩ | ⟨v, slots', hr, hfound, hlacks⟩
    · have hall : Item.readAll slots (item :: rest) = .error (.missingValue h.step) := by
        rw [readAll, hr]
        rfl
      rw [hall]
      exact ⟨[], h, Item.reads_cons.mpr (.inl ⟨rfl, hh⟩), .inl hf, fun _ _ _ _ => Nat.zero_le _,
        rfl⟩
    · -- the first item was read, so what is lacking is lacking behind it
      have hfirst : ∀ before h, Item.Reads (item :: rest) before h → slots.Lacks before h →
          ∃ before', before = item :: before' ∧ Item.Reads rest before' h ∧
            slots'.Lacks before' h := by
        intro before h hreads hl
        rcases Item.reads_cons.mp hreads with ⟨rfl, hh⟩ | ⟨before', rfl, hreads'⟩
        · rcases hl with hl | ⟨h', hmem, -⟩
          · exact absurd hl (hfound h hh)
          · simp at hmem
        · exact ⟨before', rfl, hreads', (hlacks before' h).mpr hl⟩
      specialize ih slots'
      cases hrest : Item.readAll slots' rest with
      | ok vs =>
        have hall : Item.readAll slots (item :: rest) = .ok (v :: vs) := by
          rw [readAll, hr]
          simp [hrest, bind, Except.bind, pure, Except.pure]
        rw [hrest] at ih
        rw [hall]
        intro before h hreads hl
        obtain ⟨before', -, hreads', hl'⟩ := hfirst before h hreads hl
        exact ih before' h hreads' hl'
      | error f =>
        have hall : Item.readAll slots (item :: rest) = .error f := by
          rw [readAll, hr]
          simp [hrest, bind, Except.bind]
        rw [hrest] at ih
        rw [hall]
        obtain ⟨before, h, hreads, hl, hleast, hf⟩ := ih
        refine ⟨item :: before, h, Item.reads_cons.mpr (.inr ⟨before, rfl, hreads⟩),
          (hlacks before h).mp hl, fun before' h' hreads' hl' => ?_, hf⟩
        obtain ⟨before'', rfl, hreads'', hl''⟩ := hfirst before' h' hreads' hl'
        exact Nat.succ_le_succ (hleast before'' h' hreads'' hl'')

/-- A recipe is halted where reading its items is. -/
theorem Recipe.build_eq_error {recipe : Recipe Handle} {f : Fault} :
    recipe.build slots = .error f ↔ Item.readAll slots recipe.items = .error f := by
  cases recipe with
  | list items => cases h : Item.readAll slots items <;> simp [build, Recipe.items, h, Except.map]
  | tagged name items =>
    cases h : Item.readAll slots items <;> simp [build, Recipe.items, h, Except.map]
  | single item =>
    cases h : item.read slots <;>
      simp [build, Recipe.items, Item.readAll, h, Except.map, bind, Except.bind, pure, Except.pure]

theorem Recipe.build_single_take {v : Value} (hf : slots.find? h = some v) :
    (Recipe.single (.take h)).build slots = .ok v := by
  simp [build, Item.read, Slots.take, hf, Except.map]

theorem Step.getElem?_table (steps : List (Step Expr)) (vs : List Value) (i : Nat) :
    (Step.table steps vs)[i]? =
      steps[i]?.bind fun step => vs[i]?.map fun v => step.store.map (⟨·, v⟩) := by
  rw [table, List.getElem?_zipWith]
  cases steps[i]? <;> cases vs[i]? <;> rfl

theorem Step.find?_table_append {done rest : List (Step Expr)} {step : Step Expr}
    {type : ValueType} {ws : List Value} (hlen : vs.length = done.length)
    (hstore : step.store = some type) (v : Value) :
    (Step.table (done ++ step :: rest) (vs ++ v :: ws)).find? ⟨done.length, type⟩ = some v := by
  have hstep : (done ++ step :: rest)[done.length]? = some step := by simp
  have hv : (vs ++ v :: ws)[done.length]? = some v := by simp [← hlen]
  unfold Slots.find?
  rw [getElem?_table, hstep, hv]
  simp [hstore]

/-- What the table of a sequence lacks does not depend on the values in it. -/
theorem Step.lacks_table_iff (hlen : vs.length = steps.length) :
    (Step.table steps vs).Lacks before h ↔ h.Missing steps before := by
  unfold Slots.Lacks Slots.find?
  rw [getElem?_table]
  cases hstep : steps[h.step]? with
  | none =>
    have hout : steps.length ≤ h.step := List.getElem?_eq_none_iff.mp hstep
    exact iff_of_true (.inl rfl) (.outOfRange hout)
  | some step =>
    have hlt : h.step < steps.length := (List.getElem?_eq_some_iff.mp hstep).1
    rw [List.getElem?_eq_getElem (hlen ▸ hlt)]
    constructor
    · rintro (hnone | ⟨h', hmem, heq⟩)
      · cases hstore : step.store with
        | none => exact .skipped hstep hstore
        | some type =>
          refine .otherType hstep hstore fun htype => ?_
          simp [hstore, htype] at hnone
      · exact .taken hmem heq
    · rintro (hout | ⟨hstep', hstore⟩ | ⟨hmem, heq⟩ | ⟨hstep', hstore, htype⟩)
      · omega
      · rw [hstep] at hstep'
        cases hstep'
        exact .inl (by simp [hstore])
      · exact .inr ⟨_, hmem, heq⟩
      · rw [hstep] at hstep'
        cases hstep'
        exact .inl (by simp [hstore, htype])

/-- A recipe is halted on the table of a sequence exactly if a value is missing, and then at the
first such item. -/
theorem Recipe.build_table (recipe : Recipe Handle) (hlen : vs.length = steps.length) :
    match recipe.build (Step.table steps vs) with
    | .ok _ => ∀ before h, Item.Reads recipe.items before h → ¬ h.Missing steps before
    | .error f => ∃ before h, Item.Reads recipe.items before h ∧ h.Missing steps before ∧
        (∀ before' h', Item.Reads recipe.items before' h' → h'.Missing steps before' →
          before.length ≤ before'.length) ∧ f = .missingValue h.step := by
  have hspec := Item.readAll_spec (Step.table steps vs) recipe.items
  simp only [Step.lacks_table_iff hlen] at hspec
  cases hb : recipe.build (Step.table steps vs) with
  | error f =>
    rw [Recipe.build_eq_error.mp hb] at hspec
    exact hspec
  | ok v =>
    cases hr : Item.readAll (Step.table steps vs) recipe.items with
    | error f =>
      rw [Recipe.build_eq_error.mpr hr] at hb
      cases hb
    | ok vs' =>
      rw [hr] at hspec
      exact hspec

/-! ## Own handles -/

theorem Expr.store_of_mem_handlesFrom {i : Nat} (hmem : h ∈ handlesFrom i steps) :
    i ≤ h.step ∧ ∃ step, steps[h.step - i]? = some step ∧ step.store = some h.type := by
  induction steps generalizing i with
  | nil => simp [handlesFrom] at hmem
  | cons step rest ih =>
    have hbehind (hmem : h ∈ handlesFrom (i + 1) rest) :
        i ≤ h.step ∧ ∃ step', (step :: rest)[h.step - i]? = some step' ∧
          step'.store = some h.type := by
      obtain ⟨hle, step', hstep', hstore⟩ := ih hmem
      refine ⟨by omega, step', ?_, hstore⟩
      rw [show h.step - i = h.step - (i + 1) + 1 by omega, List.getElem?_cons_succ]
      exact hstep'
    obtain ⟨x, store⟩ := step
    cases store with
    | none => exact hbehind hmem
    | some type =>
      rcases List.mem_cons.mp hmem with rfl | hmem
      · exact ⟨Nat.le_refl _, ⟨x, some type⟩, by simp, rfl⟩
      · exact hbehind hmem

/-- A recipe misses nothing if it only reads handles of its own sequence, and none that it has taken
before. -/
theorem Recipe.not_missing_of_own {recipe : Recipe Handle}
    (hown : ∀ before h, Item.Reads recipe.items before h →
      h ∈ Expr.handlesFrom 0 steps ∧ Item.take h ∉ before)
    (hreads : Item.Reads recipe.items before h) : ¬ h.Missing steps before := by
  obtain ⟨hmem, hfresh⟩ := hown before h hreads
  obtain ⟨-, step, hstep, hstore⟩ := Expr.store_of_mem_handlesFrom hmem
  rw [Nat.sub_zero] at hstep
  rintro (hout | ⟨hstep', hstore'⟩ | @⟨h', htake, heq⟩ | ⟨hstep', hstore', htype⟩)
  · rw [List.getElem?_eq_none hout] at hstep
    cases hstep
  · rw [hstep] at hstep'
    cases hstep'
    rw [hstore] at hstore'
    cases hstore'
  · -- the handle that was taken is its own too, so it has the same type
    obtain ⟨item, after, heq', -⟩ := hreads
    obtain ⟨b, a, rfl⟩ := List.append_of_mem htake
    obtain ⟨hmem', -⟩ := hown b h' ⟨.take h', a ++ item :: after, by simp [heq'], rfl⟩
    obtain ⟨-, step', hstep', hstore'⟩ := Expr.store_of_mem_handlesFrom hmem'
    rw [Nat.sub_zero, heq, hstep] at hstep'
    cases hstep'
    have htype : h'.type = h.type := by
      rw [hstore] at hstore'
      exact (Option.some.inj hstore').symm
    obtain rfl : h' = h := by
      cases h
      cases h'
      cases heq
      cases htype
      rfl
    exact hfresh htake
  · rw [hstep] at hstep'
    cases hstep'
    rw [hstore] at hstore'
    exact htype (Option.some.inj hstore').symm

theorem Slots.take_append {before : Slots} (slot : Slot) (rest : Slots) :
    (before ++ some slot :: rest).take ⟨before.length, slot.type⟩ =
      .ok (slot.value, before ++ none :: rest) := by
  have hfind : Slots.find? (before ++ some slot :: rest) ⟨before.length, slot.type⟩ =
      some slot.value := by
    simp [find?]
  simp [take, hfind]

/-- Read behind other slots, the handles of a sequence give what its steps have stored. -/
theorem Item.readAll_handlesFrom (before : Slots) (hlen : vs.length = steps.length) :
    Item.readAll (before ++ Step.table steps vs)
        ((Expr.handlesFrom before.length steps).map .take) =
      .ok (Step.table steps vs).values := by
  induction steps generalizing before vs with
  | nil => rfl
  | cons step rest ih =>
    obtain ⟨x, store⟩ := step
    obtain ⟨v, vs, rfl⟩ := List.exists_cons_of_length_eq_add_one hlen
    -- the slot of the first step is empty when the others are read
    have hrest := ih (before ++ [none]) (Nat.succ.inj hlen)
    rw [List.length_append, List.length_singleton, List.append_assoc,
      List.singleton_append] at hrest
    cases store with
    | none => exact hrest
    | some type =>
      have hread : Item.read (before ++ Step.table (⟨x, some type⟩ :: rest) (v :: vs))
          (.take ⟨before.length, type⟩) = .ok (v, before ++ none :: Step.table rest vs) :=
        Slots.take_append ⟨type, v⟩ _
      rw [Expr.handlesFrom, List.map_cons, readAll, hread]
      simp only [bind, Except.bind, hrest]
      rfl

theorem Recipe.build_listKept (hlen : vs.length = steps.length) :
    (Expr.listKept steps).build (Step.table steps vs) =
      .ok (.list (Step.table steps vs).values) := by
  have hread := Item.readAll_handlesFrom [] hlen
  rw [List.nil_append, List.length_nil] at hread
  rw [Expr.listKept, build, hread]
  rfl

end

/-! ## Sequences of a session -/

/-- Wherever a session evaluates a sequence, also inside another evaluation of the same one, a step
is evaluated exactly where all steps in front of it have matched, and a step that fails or is halted
decides. If all match, the build function is called once, on the slots of this evaluation.

If it is a recipe, it is halted exactly if an item reads a value that is missing, and the message
names the step of the first such item. A recipe that only reads what its own sequence keeps, and
nothing that it has taken, is not halted. -/
theorem Session.sequence_values (text : String) (config : Config) (g : Grammar) (k : Nat)
    (label : String) (type : ValueType) (steps : List (Step Expr))
    (build : Hook Slots (Except Fault Value)) (s : State)
    (h : Session.Evaluates text config g k (.sequenceAs label type steps build) s) :
    let env := Env.ofText text config
    let run (x : Expr) := x.matcher env (callRule env k)
    let result := run (.sequenceAs label type steps build) s
    (∀ y t, (Expr.sequenceAs label type steps build).Part env (callRule env k) s y t ↔
      ∃ done store rest vs, steps = done ++ ⟨y, store⟩ :: rest ∧
        Expr.StepsMatch run done s vs t) ∧
    ((∃ vs t, Expr.StepsMatch run steps s vs t) ∨
      ∃ done step rest vs t, steps = done ++ step :: rest ∧ Expr.StepsMatch run done s vs t ∧
        ((∃ u, run step.body t = .ok .failed u ∧
            result = .ok .failed ((u.moveTo env s.cursor).record (.wrong label))) ∨
          ∃ e u, run step.body t = .error e u ∧ result = .error e u)) ∧
    ∀ vs t, Expr.StepsMatch run steps s vs t →
      let slots := Step.table steps vs
      let u := t.note build.journal (fun _ => "run") slots
      (slots.length = steps.length ∧ ∀ (i : Nat) (step : Step Expr) (v : Value),
        steps[i]? = some step → vs[i]? = some v → slots[i]? = some (step.store.map (⟨·, v⟩))) ∧
      (result = match build.apply slots with
        | .ok v => .ok (.matched t.cursor v) u
        | .error f => .error (.fault f) u) ∧
      ∀ recipe : Recipe Handle, build.apply = recipe.build →
        ((∃ e, result = .error e u) ↔
          ∃ before h, Item.Reads recipe.items before h ∧ h.Missing steps before) ∧
        (∀ e w, result = .error e w →
          ∃ before h, Item.Reads recipe.items before h ∧ h.Missing steps before ∧
            (∀ before' h', Item.Reads recipe.items before' h' → h'.Missing steps before' →
              before.length ≤ before'.length) ∧
            e.message = "no stored value for step " ++ toString h.step) ∧
        ((∀ before h, Item.Reads recipe.items before h →
          h ∈ Expr.handlesFrom 0 steps ∧ Item.take h ∉ before) →
            ∃ v, result = .ok (.matched t.cursor v) u) := by
  intro env run result
  have hs : Sane env s := h.sane
  refine ⟨fun y t => Expr.part_sequence_iff label type build hs, ?_, fun vs t hm => ?_⟩
  · rcases Expr.StepsMatch.exists_end (k := k) steps hs with
      ⟨vs, t, hm⟩ | ⟨done, step, rest, vs, t, rfl, hm, hend⟩
    · exact .inl ⟨vs, t, hm⟩
    · refine .inr ⟨done, step, rest, vs, t, rfl, hm, ?_⟩
      rcases hend with ⟨u, hu⟩ | ⟨e, u, hu⟩
      · exact .inl ⟨u, hu, hm.run_sequence_failed label type build hu⟩
      · exact .inr ⟨e, u, hu, hm.run_sequence_halted label type build hu⟩
  · intro slots u
    have hlen := hm.length_eq
    have hresult := hm.run_sequence hs label type build
    refine ⟨⟨?_, fun i step v hstep hv => ?_⟩, hresult, fun recipe hrecipe => ?_⟩
    · simp [slots, Step.table, hlen]
    · change (Step.table steps vs)[i]? = _
      rw [Step.getElem?_table, hstep, hv]
      rfl
    · -- whether the recipe is halted is known from the steps, whatever they have matched
      have hspec := recipe.build_table hlen
      rw [← hrecipe] at hspec
      change result = _ at hresult
      dsimp only at hresult
      cases hb : build.apply (Step.table steps vs) with
      | ok v =>
        rw [hb] at hresult hspec
        refine ⟨⟨?_, ?_⟩, ?_, fun _ => ⟨v, hresult⟩⟩
        · rintro ⟨e, he⟩
          rw [hresult] at he
          cases he
        · rintro ⟨before, h, hreads, hmiss⟩
          exact absurd hmiss (hspec before h hreads)
        · intro e w he
          rw [hresult] at he
          cases he
      | error f =>
        rw [hb] at hresult hspec
        obtain ⟨before, h, hreads, hmiss, hfirst, rfl⟩ := hspec
        refine ⟨iff_of_true ⟨_, hresult⟩ ⟨before, h, hreads, hmiss⟩, ?_, fun hown => ?_⟩
        · intro e w he
          rw [hresult] at he
          cases he
          exact ⟨before, h, hreads, hmiss, hfirst, rfl⟩
        · exact absurd hmiss (Recipe.not_missing_of_own hown hreads)

/-- A sign with more signs behind it, or nothing. The value takes what is behind. -/
def Expr.signs : Expr :=
  .sequence .val [Expr.skipped (.char { apply := (· == '-') }),
    Expr.kept (.optional (.rule ⟨0, "signs"⟩))]
    { apply := (Recipe.list [.take ⟨1, .opt⟩]).build, journal := some "signs" }

/-- Signs in a row, as a rule that ends with itself. -/
def Grammar.signs : Grammar where
  rules := #[⟨"signs", false, .defined .signs⟩]

/-- The second of two signs is evaluated while the first one is, and there the rule is refused. The
build function finds its own slot. -/
theorem Session.sequence_values_signs :
    let env := Env.ofText "--" { limit := some 2 }
    ∃ u v w, Session.Evaluates "--" { limit := some 2 } .signs 0 .signs u ∧ u.depth = 2 ∧
      Expr.signs.matcher env (callRule env 0) u = .ok (.matched 2 v) w := by
  intro env
  let signs : RuleId := ⟨0, "signs"⟩
  let s := State.start env .signs
  obtain ⟨t, ht⟩ : ∃ t, Matcher.body? signs ((s.opened (.rule signs)).entering env signs) =
      .ok (some .signs) t := ⟨_, rfl⟩
  have houter : (Expr.rule signs).Visits env 2 s [signs] 1 .signs t :=
    Expr.Visits.here.body rfl rfl ht
  obtain ⟨slots, t', ht'⟩ : ∃ slots t', Matcher.runSteps (Expr.stepMatchers env (callRule env 1)
      [Expr.skipped (.char { apply := (· == '-') })]) t = .ok (some slots) t' := by
    cases ht
    exact ⟨_, _, rfl⟩
  have hinside : (Expr.rule signs).Visits env 2 s [signs] 1 (.rule signs) t' :=
    (houter.part (.step _ _ _ _ _ _ ht')).part (.optional _ _ _)
  obtain ⟨u, hu⟩ : ∃ u, Matcher.body? signs ((t'.opened (.rule signs)).entering env signs) =
      .ok (some .signs) u := by
    cases ht
    cases ht'
    exact ⟨_, rfl⟩
  have hinner : Session.Evaluates "--" { limit := some 2 } .signs 0 .signs u :=
    ⟨[], .rule signs, [signs, signs],
      hinside.body (by cases ht; cases ht'; rfl) (by cases ht; cases ht'; rfl) hu⟩
  obtain ⟨vs, w, hm, hw⟩ : ∃ vs w, Expr.StepsMatch (fun x => x.matcher env (callRule env 0))
      [Expr.skipped (.char { apply := (· == '-') }), Expr.kept (.optional (.rule signs))] u vs w ∧
        w.cursor = 2 := by
    cases ht
    cases ht'
    cases hu
    exact ⟨_, _, .cons rfl (.cons rfl (.nil _)), rfl⟩
  obtain ⟨-, -, hall⟩ := Session.sequence_values _ _ _ _ _ _ _ _ _ hinner
  obtain ⟨-, -, hrecipe⟩ := hall vs w hm
  obtain ⟨-, -, hown⟩ := hrecipe (.list [.take ⟨1, .opt⟩]) rfl
  obtain ⟨v, hv⟩ := hown fun before h hreads => by
    rcases Item.reads_cons.mp hreads with ⟨rfl, hh⟩ | ⟨before', -, hnil⟩
    · cases hh
      exact ⟨List.mem_singleton.mpr rfl, List.not_mem_nil⟩
    · exact absurd hnil Item.reads_nil
  rw [hw] at hv
  refine ⟨u, v, _, hinner, ?_, hv⟩
  cases ht
  cases ht'
  cases hu
  rfl

end Packrat
