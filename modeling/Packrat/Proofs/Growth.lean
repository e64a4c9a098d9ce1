import Mathlib.Order.Basic
import Mathlib.Tactic.Common
import Packrat.Matcher.Run

/-!
# Growth of grammars

During an evaluation a grammar changes in one way: bodies that are built on first use are built and
stay. `Grammar.Grows` is the order on grammars that this gives. A body that is there, a body that is
missing and the mode of a rule stay as they are; only what is still to be built may become anything.

`body?` is the only matcher that changes the grammar, and `Matcher.body?_cases` says all it can do.
-/

namespace Packrat

namespace Grammar

/-- `g'` is `g` after some more bodies were built. -/
structure Grows (g g' : Grammar) : Prop where
  /-- No rule comes or goes. -/
  size : g'.rules.size = g.rules.size
  /-- Rules keep their mode. -/
  skipsBlanks : ∀ r, g'.skipsBlanks r = g.skipsBlanks r
  /-- A rule without a body stays one. -/
  undefined : ∀ r, g.body r = .undefined → g'.body r = .undefined
  /-- A body stays. -/
  defined : ∀ r x, g.body r = .defined x → g'.body r = .defined x

namespace Grows

variable {g g' g'' : Grammar}

theorem refl (g : Grammar) : Grows g g := ⟨rfl, fun _ => rfl, fun _ h => h, fun _ _ h => h⟩

theorem trans (h : Grows g g') (h' : Grows g' g'') : Grows g g'' where
  size := h'.size.trans h.size
  skipsBlanks r := (h'.skipsBlanks r).trans (h.skipsBlanks r)
  undefined r hr := h'.undefined r (h.undefined r hr)
  defined r x hr := h'.defined r x (h.defined r x hr)

end Grows

/-- Setting the body of a rule that is in the grammar leaves those of the others. -/
theorem body_setBody (g : Grammar) (r r' : RuleId) (x : Expr) :
    (g.setBody r x).body r' =
      if r.index = r'.index ∧ r.index < g.rules.size then .defined x else g.body r' := by
  unfold body setBody
  rw [Array.getElem?_modify]
  by_cases h : r.index = r'.index
  · by_cases hlt : r'.index < g.rules.size
    · simp [h, hlt]
    · simp [h, hlt]
  · simp [h]

theorem skipsBlanks_setBody (g : Grammar) (r r' : RuleId) (x : Expr) :
    (g.setBody r x).skipsBlanks r' = g.skipsBlanks r' := by
  unfold skipsBlanks setBody
  rw [Array.getElem?_modify]
  by_cases h : r.index = r'.index
  · simp only [h, if_true]
    cases g.rules[r'.index]? <;> rfl
  · simp only [h, if_false]

theorem size_setBody (g : Grammar) (r : RuleId) (x : Expr) :
    (g.setBody r x).rules.size = g.rules.size := by
  simp [setBody]

theorem body_congr_index (g : Grammar) {r r' : RuleId} (h : r.index = r'.index) :
    g.body r = g.body r' := by
  simp only [body, h]

theorem skipsBlanks_congr_index (g : Grammar) {r r' : RuleId} (h : r.index = r'.index) :
    g.skipsBlanks r = g.skipsBlanks r' := by
  simp only [skipsBlanks, h]

/-- Only rules of the grammar have bodies. -/
theorem index_lt_of_body_ne {g : Grammar} {r : RuleId} (h : g.body r ≠ .undefined) :
    r.index < g.rules.size := by
  by_contra hge
  exact h (by simp [body, Array.getElem?_eq_none (Nat.le_of_not_lt hge)])

/-- Names of handles do not count as growth. -/
theorem grows_handles (g : Grammar) (handles : Handles) : g.Grows { g with handles } :=
  ⟨rfl, fun _ => rfl, fun _ h => h, fun _ _ h => h⟩

/-- A grammar grows where a body is built. -/
theorem grows_setBody {g : Grammar} {r : RuleId}
    {build : Hook Handles (Except Fault Expr × Handles)} (h : g.body r = .delayed build)
    (x : Expr) : g.Grows (g.setBody r x) where
  size := size_setBody g r x
  skipsBlanks r' := skipsBlanks_setBody g r r' x
  undefined r' hr' := by
    rw [body_setBody, if_neg]
    · exact hr'
    · rintro ⟨hi, -⟩
      rw [body_congr_index g hi, hr'] at h
      cases h
  defined r' y hr' := by
    rw [body_setBody, if_neg]
    · exact hr'
    · rintro ⟨hi, -⟩
      rw [body_congr_index g hi, hr'] at h
      cases h

/-! ## Definitions -/

/-- The rule `r` has the body `x`. -/
def Defines (g : Grammar) (r : RuleId) (x : Expr) : Prop := g.body r = .defined x

/-- Only a rule without a body is given one. -/
theorem define_ok {g g' : Grammar} {r : RuleId} {x : Expr} (h : g.define r x = .ok g') :
    g.body r = .undefined ∧ g' = g.setBody r x := by
  unfold define at h
  cases hb : g.body r with
  | undefined => rw [hb] at h; cases h; exact ⟨rfl, rfl⟩
  | defined y => rw [hb] at h; cases h
  | delayed b => rw [hb] at h; cases h

/-- A definition takes back no body. -/
theorem Defines.of_define {g g' : Grammar} {r r' : RuleId} {x y : Expr}
    (h : g.define r x = .ok g') (hy : g.Defines r' y) : g'.Defines r' y := by
  obtain ⟨hr, rfl⟩ := define_ok h
  unfold Defines at hy ⊢
  rw [body_setBody, if_neg]
  · exact hy
  · rintro ⟨hi, -⟩
    rw [body_congr_index g hi, hy] at hr
    cases hr

end Grammar

namespace State

/-- `t` is `s` after a body was built, or was found to be defective. -/
def Rebuilt (s t : State) : Prop :=
  s.grammar.Grows t.grammar ∧ ∃ g es, t = { s with grammar := g, events := es }

theorem Rebuilt.refl (s : State) : s.Rebuilt s := ⟨.refl _, s.grammar, s.events, rfl⟩

end State

namespace Matcher

/-- Building the body of a rule: what is built, and the grammar afterwards. -/
def built (g : Grammar) (r : RuleId) (build : Hook Handles (Except Fault Expr × Handles)) :
    Except Fault Expr × Grammar :=
  match build.apply g.handles with
  | (.ok x, handles) => (.ok x, { g with handles }.setBody r x)
  | (.error f, handles) => (.error f, { g with handles })

theorem run_body?_undefined {r : RuleId} {s : State} (h : s.grammar.body r = .undefined) :
    body? r s = .ok none s := by
  simp only [body?, ParseM.run_bind, ParseM.run_get, h]
  rfl

theorem run_body?_defined {r : RuleId} {s : State} {x : Expr}
    (h : s.grammar.body r = .defined x) : body? r s = .ok (some x) s := by
  simp only [body?, ParseM.run_bind, ParseM.run_get, h]
  rfl

/-- A body is built on first use: the call is noted, and the handles that were named meanwhile stay,
even if a fault stops the builder. -/
theorem run_body?_delayed {r : RuleId} {s : State}
    {build : Hook Handles (Except Fault Expr × Handles)}
    (h : s.grammar.body r = .delayed build) :
    body? r s =
      let t := { s.note build.journal (fun _ => "build") s.grammar.handles with
        grammar := (built s.grammar r build).2 }
      match (built s.grammar r build).1 with
      | .ok x => .ok (some x) t
      | .error f => .error (.fault f) t := by
  have hg : (s.note build.journal (fun _ => "build") s.grammar.handles).grammar = s.grammar := by
    unfold State.note
    split <;> rfl
  unfold body? built
  simp only [ParseM.run_bind, ParseM.run_get, h, run_call]
  rcases build.apply s.grammar.handles with ⟨result, handles⟩
  cases result with
  | ok x => simp only [ParseM.run_bind, ParseM.run_modify, ParseM.run_pure, hg]
  | error f => simp only [ParseM.run_modify, ParseM.run_throw, hg]

/-- Building a body lets the grammar grow, also where it does not succeed. -/
theorem built_grows {g : Grammar} {r : RuleId}
    {build : Hook Handles (Except Fault Expr × Handles)} (h : g.body r = .delayed build) :
    g.Grows (built g r build).2 := by
  unfold built
  cases build.apply g.handles with
  | mk result handles =>
    cases result with
    | error f => exact Grammar.grows_handles g handles
    | ok x =>
      have hb : Grammar.body { g with handles } r = .delayed build := h
      exact (Grammar.grows_handles g handles).trans (Grammar.grows_setBody hb x)

/-- A body that was built is the body of its rule. -/
theorem body_built {g : Grammar} {r : RuleId}
    {build : Hook Handles (Except Fault Expr × Handles)} (h : g.body r = .delayed build) {x : Expr}
    (hx : (built g r build).1 = .ok x) : (built g r build).2.body r = .defined x := by
  have hlt : r.index < g.rules.size := Grammar.index_lt_of_body_ne (by simp [h])
  unfold built at hx ⊢
  cases hb : build.apply g.handles with
  | mk result handles =>
    rw [hb] at hx
    cases result with
    | error f => cases hx
    | ok y =>
      cases hx
      exact (Grammar.body_setBody _ r r x).trans (if_pos ⟨rfl, hlt⟩)

/-- All that looking for the body of a rule can come to. -/
theorem body?_cases (r : RuleId) (s : State) :
    (s.grammar.body r = .undefined ∧ body? r s = .ok none s) ∨
    (∃ x t, body? r s = .ok (some x) t ∧ s.Rebuilt t ∧ t.grammar.body r = .defined x) ∨
    (∃ f t, body? r s = .error (.fault f) t ∧ s.Rebuilt t) := by
  cases hb : s.grammar.body r with
  | undefined => exact Or.inl ⟨rfl, run_body?_undefined hb⟩
  | defined x => exact Or.inr (Or.inl ⟨x, s, run_body?_defined hb, .refl s, hb⟩)
  | delayed build =>
    right
    have hnote : ∀ g, s.grammar.Grows g → s.Rebuilt
        { s.note build.journal (fun _ => "build") s.grammar.handles with grammar := g } := by
      intro g hg
      refine ⟨hg, g, (s.note build.journal (fun _ => "build") s.grammar.handles).events, ?_⟩
      unfold State.note
      split <;> rfl
    rw [run_body?_delayed hb]
    cases hr : (built s.grammar r build).1 with
    | ok x => exact Or.inl ⟨x, _, rfl, hnote _ (built_grows hb), body_built hb hr⟩
    | error f => exact Or.inr ⟨f, _, rfl, hnote _ (built_grows hb)⟩

/-- Asking for a body changes no more than building it does. -/
theorem rebuilt_of_body? {r : RuleId} {s t : State} {x : Expr} (h : body? r s = .ok (some x) t) :
    s.Rebuilt t := by
  rcases body?_cases r s with ⟨-, hb⟩ | ⟨y, u, hb, hu, -⟩ | ⟨f, u, hb, -⟩
  · rw [hb] at h
    cases h
  · rw [hb] at h
    cases h
    exact hu
  · rw [hb] at h
    cases h

/-- A body that was found is the body of its rule from then on. -/
theorem defines_of_body? {r : RuleId} {s t : State} {x : Expr} (h : body? r s = .ok (some x) t) :
    t.grammar.Defines r x := by
  rcases body?_cases r s with ⟨-, hb⟩ | ⟨y, u, hb, -, hy⟩ | ⟨f, u, hb, -⟩
  · rw [hb] at h
    cases h
  · rw [hb] at h
    cases h
    exact hy
  · rw [hb] at h
    cases h

/-- References to one rule have one body, whatever name they give. -/
theorem body?_congr_index {r r' : RuleId} (h : r.index = r'.index) : body? r = body? r' := by
  unfold body? Grammar.body Grammar.setBody
  rw [h]

/-- What is built depends on the grammar only. -/
theorem body?_congr (r : RuleId) {s t : State} (hg : t.grammar = s.grammar) :
    match body? r s with
    | .ok x u => ∃ w, body? r t = .ok x w ∧ t.Rebuilt w ∧ w.grammar = u.grammar
    | .error h _ => ∃ w, body? r t = .error h w := by
  cases hb : s.grammar.body r with
  | undefined =>
    rw [run_body?_undefined hb, run_body?_undefined (hg ▸ hb)]
    exact ⟨t, rfl, .refl t, hg⟩
  | defined x =>
    rw [run_body?_defined hb, run_body?_defined (hg ▸ hb)]
    exact ⟨t, rfl, .refl t, hg⟩
  | delayed build =>
    have ht := body?_cases r t
    rw [run_body?_delayed hb]
    rw [run_body?_delayed (hg ▸ hb), hg] at ht ⊢
    cases hr : (built s.grammar r build).1 with
    | ok x =>
      rw [hr] at ht
      rcases ht with ⟨-, ht⟩ | ⟨y, w, ht, hw, -⟩ | ⟨f, w, ht, -⟩
      · cases ht
      · cases ht
        exact ⟨_, rfl, hw, rfl⟩
      · cases ht
    | error f => exact ⟨_, rfl⟩

end Matcher

end Packrat
