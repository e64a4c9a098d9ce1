import Packrat.Proofs.Coupling
import Packrat.Proofs.Extraction

/-!
# Modes that cannot matter

Whether a rule skips blanks, and which characters are blanks, shows only where a rule that skips
blanks meets one. If all rules are atomic, or no character of the text is a blank, runs go through
the same states, whatever the modes of the rules and the blanks of the configuration are. So they
give the same answer and report the same events (`Grammar.parse_modes_eq`).

Two grammars that differ only in the modes of their rules have the same atomic version
(`Grammar.atomic`). Building a body commutes with taking it.
-/

namespace Packrat

/-- The grammar with all rules atomic. -/
def Grammar.atomic (g : Grammar) : Grammar :=
  { g with rules := g.rules.map fun rule => { rule with skipsBlanks := false } }

section

variable {g g' : Grammar} {r : RuleId} {build : Hook Handles (Except Fault Expr × Handles)}

namespace Grammar

/-- Making rules atomic leaves their bodies. -/
theorem body_atomic (g : Grammar) (r : RuleId) : g.atomic.body r = g.body r := by
  unfold body atomic
  rw [Array.getElem?_map]
  cases g.rules[r.index]? <;> rfl

theorem skipsBlanks_atomic (g : Grammar) (r : RuleId) : g.atomic.skipsBlanks r = false := by
  unfold skipsBlanks atomic
  rw [Array.getElem?_map]
  cases g.rules[r.index]? <;> rfl

theorem atomic_atomic (g : Grammar) : g.atomic.atomic = g.atomic := by
  unfold atomic
  rw [Array.map_map]
  rfl

theorem size_atomic (g : Grammar) : g.atomic.rules.size = g.rules.size := Array.size_map

/-- Setting a body commutes with making the rules atomic. -/
theorem atomic_setBody (g : Grammar) (r : RuleId) (x : Expr) :
    (g.setBody r x).atomic = g.atomic.setBody r x := by
  unfold atomic setBody
  congr 1
  refine Array.ext_getElem? fun i => ?_
  simp only [Array.getElem?_map, Array.getElem?_modify]
  split
  · simp [Option.map_map, Function.comp_def]
  · rfl

/-- Building a body goes the same way whatever the modes are. -/
theorem built_atomic (g : Grammar) (r : RuleId)
    (build : Hook Handles (Except Fault Expr × Handles)) : Matcher.built g.atomic r build =
      ((Matcher.built g r build).1, (Matcher.built g r build).2.atomic) := by
  unfold Matcher.built
  rw [show g.atomic.handles = g.handles from rfl]
  cases build.apply g.handles with
  | mk result handles =>
    cases result with
    | error f => rfl
    | ok x => exact congrArg _ (atomic_setBody { g with handles } r x).symm

end Grammar

/-- Runs of grammars that differ in their modes only, with modes that are related. -/
def Coupling.mixed (modes : Bool → Bool → Prop) : Coupling where
  ahead := 0
  modes
  history g es g' es' := g'.atomic = g.atomic ∧ es' = es ∧
    ∀ r, modes (g.skipsBlanks r) (g'.skipsBlanks r)
  admits _ := True

namespace Coupling

variable {modes : Bool → Bool → Prop}

/-- Bodies are found, and built if need be, whatever the modes are. -/
theorem related_mixed {s t : State} (h : (mixed modes).Histories s t) :
    Result.Related (mixed modes).Bodies (mixed modes).Histories (Matcher.body? r s)
      (Matcher.body? r t) := by
  obtain ⟨hg, he, hmodes⟩ := h
  have hbody : t.grammar.body r = s.grammar.body r := by
    rw [← Grammar.body_atomic, hg, Grammar.body_atomic]
  refine related_body? hbody (fun _ _ _ _ _ => trivial) ⟨hg, he, hmodes⟩ fun build hb => ?_
  have hbuilt := Grammar.built_atomic t.grammar r build
  rw [hg, Grammar.built_atomic] at hbuilt
  obtain ⟨hresult, hatomic⟩ := Prod.mk.inj hbuilt
  refine ⟨hresult.symm, hatomic.symm, ?_, fun r' => ?_⟩
  · cases build.journal with
    | none => exact he
    | some journal => exact congrArg (·.push (.called journal "build")) he
  · rw [(Matcher.built_grows hb).skipsBlanks, (Matcher.built_grows (hbody.trans hb)).skipsBlanks]
    exact hmodes r'

/-- Runs with related modes are coupled if these modes skip the same blanks of the text. -/
theorem lawful_mixed {text : String} {config : Config} {blanks : List Char}
    (hblanks : ∀ on on' p, modes on on' →
      (if on' then (Env.ofText text { config with blanks }).skipBlanks p else p) =
        if on then (Env.ofText text config).skipBlanks p else p) :
    (mixed modes).Lawful (.ofText text config) (.ofText text { config with blanks }) where
  char _ := rfl
  length := rfl
  limit := rfl
  memoizing := rfl
  blanks := hblanks
  mode _ _ _ _ r h := h.2.2 r
  emit := by
    rintro g es g' es' e ⟨hg, rfl, hmodes⟩ -
    exact ⟨hg, congrArg es'.push e.shift_zero, hmodes⟩
  call := by
    rintro g es g' es' x journal argument ⟨hg, rfl, hmodes⟩ - -
    exact ⟨hg, rfl, hmodes⟩
  body _ _ _ h := related_mixed h
  position _ := rfl

/-- Neither the modes nor the blanks change the room. -/
theorem level_mixed (text : String) (config : Config) (blanks : List Char) :
    (mixed modes).Level (.ofText text config) (.ofText text { config with blanks }) := by
  refine ⟨rfl, ?_⟩
  rintro g es g' es' ⟨hg, -⟩
  have hsize : g'.rules.size = g.rules.size := by
    rw [← Grammar.size_atomic, hg, Grammar.size_atomic]
  unfold headroom
  rw [hsize]
  rfl

/-- Runs with related modes that skip the same blanks come to the same. -/
theorem parse_mixed (modes : Bool → Bool → Prop) {text : String} {config : Config}
    {blanks : List Char}
    (hblanks : ∀ on on' p, modes on on' →
      (if on' then (Env.ofText text { config with blanks }).skipBlanks p else p) =
        if on then (Env.ofText text config).skipBlanks p else p)
    (hstart : modes false false) (hg : g'.atomic = g.atomic)
    (hmodes : ∀ r, modes (g.skipsBlanks r) (g'.skipsBlanks r)) (root : RuleId) :
    (g'.parse root { config with blanks } text).answer = (g.parse root config text).answer ∧
      (g'.parse root { config with blanks } text).events = (g.parse root config text).events := by
  obtain ⟨hanswer, -, hevents, -⟩ := parse_answer_eq (lawful_mixed hblanks)
    (level_mixed text config blanks) hstart ⟨hg, rfl, hmodes⟩ root
  exact ⟨hanswer, congrArg Array.toList hevents⟩

end Coupling

/-- Where no character is a blank, nothing is skipped. -/
theorem Env.skipBlanks_eq {text : String} {config : Config}
    (h : ∀ ch ∈ text.toList, ch ∉ config.blanks) (p : Nat) :
    (Env.ofText text config).skipBlanks p = p := by
  refine Env.skipBlanks_of_settled fun ch hch => h ch ?_
  rw [Env.ofText, List.getElem?_toArray] at hch
  exact List.mem_of_getElem? hch

/-- The modes of rules and the blanks of the configuration do not matter to a text if all rules are
atomic, or if none of its characters is a blank: the answer is the same, and so are the events. -/
theorem Grammar.parse_modes_eq (hg : g'.atomic = g.atomic) (config : Config) (blanks : List Char)
    (text : String) (root : RuleId)
    (h : (∀ r, g.skipsBlanks r = false ∧ g'.skipsBlanks r = false) ∨
      ∀ ch ∈ text.toList, ch ∉ config.blanks ∧ ch ∉ blanks) :
    (g'.parse root { config with blanks } text).answer = (g.parse root config text).answer ∧
      (g'.parse root { config with blanks } text).events = (g.parse root config text).events := by
  rcases h with hatomic | htext
  · refine Coupling.parse_mixed (fun on on' => on = false ∧ on' = false) ?_ ⟨rfl, rfl⟩ hg
      hatomic root
    rintro _ _ p ⟨rfl, rfl⟩
    rfl
  · refine Coupling.parse_mixed (fun _ _ => True) ?_ trivial hg (fun _ => trivial) root
    intro on on' p _
    have hskip := Env.skipBlanks_eq (fun ch hch => (htext ch hch).1) p
    have hskip' : (Env.ofText text { config with blanks }).skipBlanks p = p :=
      Env.skipBlanks_eq (fun ch hch => (htext ch hch).2) p
    rw [hskip, hskip', ite_self, ite_self]

end

/-- Brackets without a blank between them, in rules of either kind and with other blanks; and
brackets with blanks between them, in atomic rules. -/
theorem Grammar.parse_modes_eq_brackets :
    let nest : RuleId := ⟨0, "nest"⟩
    let answer (g : Grammar) (blanks : List Char) (text : String) :=
      (g.parse nest { blanks } text).answer
    (answer .brackets [' '] "(())").isOk = true ∧
      answer brackets.atomic ['x'] "(())" = answer .brackets [' '] "(())" ∧
      answer brackets.atomic ['x'] "( )" = answer brackets.atomic [' '] "( )" := by
  intro nest answer
  have hblanks : ∀ ch ∈ "(())".toList, ch ∉ [' '] ∧ ch ∉ ['x'] := by simp
  have hmodes := brackets.skipsBlanks_atomic
  exact ⟨by decide +kernel,
    (Grammar.parse_modes_eq brackets.atomic_atomic { blanks := [' '] } ['x'] "(())" nest
      (.inr hblanks)).1,
    (Grammar.parse_modes_eq rfl { blanks := [' '] } ['x'] "( )" nest
      (.inl fun r => ⟨hmodes r, hmodes r⟩)).1⟩

end Packrat
