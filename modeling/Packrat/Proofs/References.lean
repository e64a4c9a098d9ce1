import Packrat.Form.Grammar
import Packrat.Proofs.Edge

/-!
# The rules that a grammar refers to

A rule occurs in an expression if it stands anywhere in it. A grammar mentions the rules that occur
in its bodies, those that are built on first use included; building a body adds nothing to them
(`mentions_built`), and a definition adds the rules of its expression.

A grammar is closed if it mentions its own rules only. References can be made up, so not every
grammar is; but an expression made of a form refers only to rules that its names stand for
(`Form.toExpr_within`), so every grammar that is described by forms is closed.
-/

namespace Packrat

/-- The rule occurs in the expression. -/
def Expr.Refers (x : Expr) (r : RuleId) : Prop := x.Begins (fun _ => True) r

/-- The rule occurs in the body, or may occur in it when it is built. -/
def Body.Refers : Body → RuleId → Prop
  | .undefined, _ => False
  | .defined x, r => x.Refers r
  | .delayed build, r => ∃ handles x, (build.apply handles).1 = .ok x ∧ x.Refers r

namespace Grammar

/-- The rule occurs in a body of the grammar. -/
def Mentions (g : Grammar) (r : RuleId) : Prop := ∃ r', (g.body r').Refers r

/-- The references to the rules of a grammar. -/
def ids (g : Grammar) : List RuleId := g.rules.toList.mapIdx fun i rule => ⟨i, rule.name⟩

/-- The bodies of the grammar refer to its own rules only. -/
def Closed (g : Grammar) : Prop := ∀ r, g.Mentions r → r ∈ g.ids

theorem length_ids (g : Grammar) : g.ids.length = g.rules.size := by simp [ids]

variable {g g' : Grammar} {r r' : RuleId} {x : Expr}

theorem ids_setBody (g : Grammar) (r : RuleId) (x : Expr) : (g.setBody r x).ids = g.ids := by
  refine List.ext_getElem? fun i => ?_
  simp only [ids, setBody, List.getElem?_mapIdx, Array.getElem?_toList, Array.getElem?_modify]
  split
  · simp [Option.map_map, Function.comp_def]
  · rfl

theorem mentions_of_defines (h : g.Defines r' x) (hr : x.Refers r) : g.Mentions r := by
  refine ⟨r', ?_⟩
  rw [h]
  exact hr

/-- Setting a body adds the rules of the expression at most. -/
theorem mentions_of_setBody (h : (g.setBody r' x).Mentions r) : g.Mentions r ∨ x.Refers r := by
  obtain ⟨r'', hr⟩ := h
  rw [body_setBody] at hr
  split at hr
  · exact Or.inr hr
  · exact Or.inl ⟨r'', hr⟩

/-- Building a body adds nothing to what a grammar mentions. -/
theorem mentions_of_built {build : Hook Handles (Except Fault Expr × Handles)}
    (h : g.body r' = .delayed build) (hr : (Matcher.built g r' build).2.Mentions r) :
    g.Mentions r := by
  unfold Matcher.built at hr
  cases hb : build.apply g.handles with
  | mk result handles =>
    rw [hb] at hr
    cases result with
    | error f => exact hr
    | ok x =>
      rcases mentions_of_setBody hr with hr | hr
      · exact hr
      · refine ⟨r', ?_⟩
        rw [h]
        exact ⟨g.handles, x, by rw [hb], hr⟩

theorem mentions_of_define (h : g.define r' x = .ok g') (hr : g'.Mentions r) :
    g.Mentions r ∨ x.Refers r := by
  obtain ⟨-, rfl⟩ := define_ok h
  exact mentions_of_setBody hr

end Grammar

/-- Looking for a body adds nothing to what a grammar mentions. -/
theorem Matcher.mentions_of_body? {r r' : RuleId} {s t : State} {x : Option Expr}
    (h : body? r' s = .ok x t) (hr : t.grammar.Mentions r) : s.grammar.Mentions r := by
  cases hb : s.grammar.body r' with
  | undefined => rw [run_body?_undefined hb] at h; cases h; exact hr
  | defined y => rw [run_body?_defined hb] at h; cases h; exact hr
  | delayed b =>
    rw [run_body?_delayed hb] at h
    cases hy : (built s.grammar r' b).1 with
    | error f => rw [hy] at h; cases h
    | ok y => rw [hy] at h; cases h; exact Grammar.mentions_of_built hb hr

/-! ## Expressions made of forms -/

/-- Every rule that occurs in the expression has `P`. -/
def Expr.Within (P : RuleId → Prop) (x : Expr) : Prop := ∀ r, x.Refers r → P r

/-- What the building comes to, if it is not stopped, has `Q`. -/
def BuildM.Yields {α : Type} (Q : α → Prop) (m : BuildM α) : Prop :=
  ∀ handles a handles', m handles = .ok a handles' → Q a

namespace BuildM.Yields

variable {α β : Type} {Q : α → Prop} {R : β → Prop}

theorem pure {a : α} (h : Q a) : Yields Q (Pure.pure a) := by
  intro _ _ _ heq
  cases heq
  exact h

theorem throw (e : BuildError) : Yields Q (MonadExcept.throw e) := by
  intro _ _ _ heq
  cases heq

theorem bind {m : BuildM α} {f : α → BuildM β} (hm : Yields Q m)
    (hf : ∀ a, Q a → Yields R (f a)) : Yields R (m >>= f) := by
  intro handles b handles' heq
  change EStateM.bind m f handles = _ at heq
  unfold EStateM.bind at heq
  cases hr : m handles with
  | error e handles'' => rw [hr] at heq; cases heq
  | ok a handles'' =>
    rw [hr] at heq
    exact hf a (hm _ _ _ hr) _ _ _ heq

theorem any (m : BuildM α) : Yields (fun _ => True) m := fun _ _ _ _ => trivial

/-- A check lets through what it was given, or stops. -/
theorem check {Q : Expr → Prop} (checked : Bool) {result : Except Defect Expr}
    (h : ∀ x, result = .ok x → Q x) : Yields Q (BuildM.check checked result) := by
  cases result with
  | ok x => exact pure (h x rfl)
  | error d => exact throw _

end BuildM.Yields

section

variable {P : RuleId → Prop} {r : RuleId}

theorem Expr.refers_sequence {label : String} {type : ValueType} {steps : List (Step Expr)}
    {build : Hook Slots (Except Fault Value)} :
    (Expr.sequenceAs label type steps build).Refers r ↔ ∃ step ∈ steps, step.body.Refers r := by
  change Expr.stepsBegin _ r steps ↔ _
  induction steps with
  | nil => simp [Expr.stepsBegin]
  | cons step rest ih => simp [Expr.stepsBegin, ih, Expr.Refers]

theorem Expr.refers_choice {label : String} {xs : List Expr} :
    (Expr.choiceAs label xs).Refers r ↔ ∃ x ∈ xs, x.Refers r := by
  change Expr.someBegins _ r xs ↔ _
  induction xs with
  | nil => simp [Expr.someBegins]
  | cons x rest ih => simp [Expr.someBegins, ih, Expr.Refers]

theorem Expr.Within.sequence {type : ValueType} {steps : List (Step Expr)}
    {build : Hook Slots (Except Fault Value)} (h : ∀ step ∈ steps, step.body.Within P) :
    (Expr.sequence type steps build).Within P := by
  intro r hr
  obtain ⟨step, hmem, hr⟩ := Expr.refers_sequence.mp hr
  exact h step hmem r hr

theorem Expr.Within.choice {xs : List Expr} (h : ∀ x ∈ xs, x.Within P) :
    (Expr.choice xs).Within P := by
  intro r hr
  obtain ⟨x, hmem, hr⟩ := Expr.refers_choice.mp hr
  exact h x hmem r hr

namespace Delimited

variable {d : Delimited}

/-- Every rule that occurs in a part of the list has `P`. -/
def Within (P : RuleId → Prop) (d : Delimited) : Prop :=
  d.element.Within P ∧
    ∀ x, x ∈ d.separator ∨ x ∈ d.opening ∨ x ∈ d.closing → x.Within P

/-- The separator in front of an element adds only its own rules. -/
theorem next_within (h : d.Within P) : d.next.Within P := by
  unfold next
  split
  · rename_i separator hsep
    refine .sequence fun step hmem => ?_
    rcases List.mem_cons.mp hmem with rfl | hmem
    · exact h.2 separator (Or.inl hsep)
    · rw [List.mem_singleton.mp hmem]
      exact h.1
  · exact h.1

/-- The elements of a list refer to the rules of the element and the separator. -/
theorem elements_within (hle : ∀ m ∈ d.most, d.least ≤ m) (h : d.Within P) :
    (d.elements hle).Within P := by
  have hlist : (d.nonempty (others d.least d.most hle)).Within P := by
    refine .sequence fun step hmem => ?_
    rcases List.mem_cons.mp hmem with rfl | hmem
    · exact h.1
    · rw [List.mem_singleton.mp hmem]
      exact next_within h
  unfold elements
  split
  · exact fun _ hr => hr.elim
  · dsimp only
    split
    · exact hlist
    · exact hlist

theorem enclose_within {x : Expr} (hx : x.Within P) (h : d.Within P) :
    (d.enclose x).Within P := by
  unfold enclose
  split
  · exact hx
  · refine .sequence fun step hmem => ?_
    simp only [List.mem_append, List.mem_cons, List.mem_map, Option.mem_toList] at hmem
    rcases hmem with ⟨y, hy, rfl⟩ | rfl | ⟨y, hy, rfl⟩
    · exact h.2 y (Or.inr (Or.inl hy))
    · exact hx
    · exact h.2 y (Or.inr (Or.inr hy))

/-- A delimited list refers to the rules of its parts. -/
theorem toExpr?_within {x : Expr} (h : d.Within P) (hx : d.toExpr? = .ok x) : x.Within P := by
  unfold toExpr? at hx
  split at hx
  · cases hx
    exact enclose_within (elements_within _ h) h
  · split at hx
    · cases hx
      exact enclose_within (elements_within _ h) h
    · cases hx

end Delimited

namespace Form

/-- A sequence refers to the rules of its steps, whatever recipe puts them together. -/
theorem buildSequence_within {steps : List (StepForm Expr)} (recipe : Option (Recipe String))
    (checked : Bool) (journal : Option String) (h : ∀ step ∈ steps, step.body.Within P) :
    (buildSequence steps recipe checked journal).Yields (Expr.Within P) := by
  have hsteps : ∀ step ∈ steps.map StepForm.toStep, step.body.Within P := by
    intro step hmem
    obtain ⟨form, hform, rfl⟩ := List.mem_map.mp hmem
    unfold StepForm.toStep
    split <;> exact h form hform
  have hcheck : ∀ build, (BuildM.check checked
      (Expr.sequence? (steps.map StepForm.toStep) build)).Yields (Expr.Within P) := by
    refine fun build => .check checked fun x hx => ?_
    unfold Expr.sequence? at hx
    split at hx
    · cases hx
    · cases hx
      exact .sequence hsteps
  unfold buildSequence
  refine .bind (.any _) fun _ _ => ?_
  cases recipe with
  | none => exact .bind (.any _) fun _ _ => hcheck _
  | some recipe => exact .bind (.any _) fun _ _ => .bind (.any _) fun _ _ => hcheck _

variable {find : String → Option RuleId}

mutual

/-- An expression made of a form refers only to rules that names stand for. -/
theorem toExpr_within (hP : ∀ name r, find name = some r → P r) (x : Form) :
    (x.toExpr find).Yields (Expr.Within P) := by
  cases x with
  | builtin c => rw [toExpr]; exact .pure fun _ hr => hr.elim
  | char test journal => rw [toExpr]; exact .pure fun _ hr => hr.elim
  | text s => rw [toExpr]; exact .pure fun _ hr => hr.elim
  | literal length test journal => rw [toExpr]; exact .pure fun _ hr => hr.elim
  | empty => rw [toExpr]; exact .pure fun _ hr => hr.elim
  | fail message => rw [toExpr]; exact .pure fun _ hr => hr.elim
  | position => rw [toExpr]; exact .pure fun _ hr => hr.elim
  | rule name =>
    rw [toExpr]
    split
    · rename_i r hr
      refine .pure fun r' hr' => ?_
      obtain rfl : r = r' := hr'
      exact hP name r hr
    · exact .throw _
  | optional x => rw [toExpr]; exact (toExpr_within hP x).bind fun _ hx => .pure hx
  | repeated x low high checked =>
    rw [toExpr]
    refine (toExpr_within hP x).bind fun y hy => .check checked fun z hz => ?_
    unfold Expr.repeated? at hz
    cases hc : Count.ofBounds low high with
    | error d => rw [hc] at hz; cases hz
    | ok count => rw [hc] at hz; cases hz; exact hy
  | exactly x n => rw [toExpr]; exact (toExpr_within hP x).bind fun _ hx => .pure hx
  | zeroOrMore x => rw [toExpr]; exact (toExpr_within hP x).bind fun _ hx => .pure hx
  | oneOrMore x => rw [toExpr]; exact (toExpr_within hP x).bind fun _ hx => .pure hx
  | lookahead negated x => rw [toExpr]; exact (toExpr_within hP x).bind fun _ hx => .pure hx
  | orElse x y =>
    rw [toExpr]
    refine (toExpr_within hP x).bind fun x' hx => (toExpr_within hP y).bind fun y' hy => ?_
    refine .pure (.choice fun z hz => ?_)
    rcases List.mem_cons.mp hz with rfl | hz
    · exact hx
    · rw [List.mem_singleton.mp hz]
      exact hy
  | choice xs checked =>
    rw [toExpr]
    refine (toExprs_within hP xs).bind fun ys hys => .check checked fun z hz => ?_
    unfold Expr.choice? at hz
    split at hz
    · cases hz
    · cases hz
      exact .choice hys
  | map x f journal => rw [toExpr]; exact (toExpr_within hP x).bind fun _ hx => .pure hx
  | orDefault x fallback => rw [toExpr]; exact (toExpr_within hP x).bind fun _ hx => .pure hx
  | join x separator => rw [toExpr]; exact (toExpr_within hP x).bind fun _ hx => .pure hx
  | joinWith x separator opening closing =>
    rw [toExpr]
    exact (toExpr_within hP x).bind fun _ hx => .pure hx
  | list x separator opening closing least most checked =>
    rw [toExpr]
    refine (toExpr_within hP x).bind fun element helement => ?_
    refine (toExpr?_within hP separator).bind fun separator' hsep => ?_
    refine (toExpr?_within hP opening).bind fun opening' hopen => ?_
    refine (toExpr?_within hP closing).bind fun closing' hclose => ?_
    refine .check checked fun y hy => Delimited.toExpr?_within ⟨helement, fun z hz => ?_⟩ hy
    rcases hz with hz | hz | hz
    · exact hsep z hz
    · exact hopen z hz
    · exact hclose z hz
  | sequence steps recipe checked journal =>
    rw [toExpr]
    exact (stepsToExprs_within hP steps).bind fun ys hys =>
      buildSequence_within recipe checked journal hys

theorem toExprs_within (hP : ∀ name r, find name = some r → P r) (xs : List Form) :
    (toExprs find xs).Yields fun ys => ∀ y ∈ ys, y.Within P := by
  cases xs with
  | nil => rw [toExprs]; exact .pure fun _ hmem => by cases hmem
  | cons x rest =>
    rw [toExprs]
    refine (toExpr_within hP x).bind fun y hy => (toExprs_within hP rest).bind fun ys hys => ?_
    refine .pure fun z hz => ?_
    rcases List.mem_cons.mp hz with rfl | hz
    · exact hy
    · exact hys z hz

theorem toExpr?_within (hP : ∀ name r, find name = some r → P r) (x : Option Form) :
    (toExpr? find x).Yields fun y => ∀ z ∈ y, z.Within P := by
  cases x with
  | none => rw [toExpr?]; exact .pure fun _ hmem => by cases hmem
  | some x =>
    rw [toExpr?]
    refine (toExpr_within hP x).bind fun y hy => .pure fun z hz => ?_
    cases hz
    exact hy

theorem stepsToExprs_within (hP : ∀ name r, find name = some r → P r)
    (steps : List (StepForm Form)) :
    (stepsToExprs find steps).Yields fun ys => ∀ step ∈ ys, step.body.Within P := by
  cases steps with
  | nil => rw [stepsToExprs]; exact .pure fun _ hmem => by cases hmem
  | cons step rest =>
    rw [stepsToExprs]
    refine (toExpr_within hP step.body).bind fun y hy => ?_
    refine (stepsToExprs_within hP rest).bind fun ys hys => .pure fun z hz => ?_
    rcases List.mem_cons.mp hz with rfl | hz
    · exact hy
    · exact hys z hz

end

end Form

end

/-! ## Grammars made of forms -/

/-- A name is found at the index of a rule of that name. -/
theorem RuleId.findFrom_spec {name : String} {names : List String} {index : Nat} {r : RuleId}
    (h : findFrom name index names = some r) :
    ∃ i, names[i]? = some r.name ∧ r.index = index + i := by
  induction names generalizing index with
  | nil => cases h
  | cons n rest ih =>
    rw [findFrom] at h
    cases hr : findFrom name (index + 1) rest with
    | some r' =>
      rw [hr] at h
      cases h
      obtain ⟨i, hi, hindex⟩ := ih hr
      exact ⟨i + 1, hi, by omega⟩
    | none =>
      rw [hr] at h
      dsimp only at h
      split at h
      · rename_i heq
        cases h
        exact ⟨0, by rw [← heq]; rfl, rfl⟩
      · cases h

namespace Grammar

variable {g g' : Grammar} {r : RuleId} {x : Expr}

/-- A name that is looked up in a grammar stands for one of its rules. -/
theorem mem_ids_of_findFrom (name : String)
    (h : RuleId.findFrom name 0 (g.rules.toList.map Rule.name) = some r) : r ∈ g.ids := by
  obtain ⟨i, hi, hindex⟩ := RuleId.findFrom_spec h
  rw [List.getElem?_map, Option.map_eq_some_iff] at hi
  obtain ⟨rule, hrule, hname⟩ := hi
  rw [ids, List.mem_iff_getElem?]
  refine ⟨i, ?_⟩
  rw [List.getElem?_mapIdx, hrule]
  cases r
  simp_all

/-- An expression that is built over a grammar refers only to its rules. -/
theorem build_within {form : Form} (h : (g.build form).1 = .ok x) : x.Within (· ∈ g.ids) := by
  unfold build at h
  cases hr : form.toExpr g.find? g.handles with
  | error e handles => rw [hr] at h; cases h
  | ok y handles =>
    rw [hr] at h
    cases h
    exact Form.toExpr_within (fun name _ hfind => mem_ids_of_findFrom name hfind) form _ _ _ hr

/-- A closed grammar stays closed when one of its rules is defined by a form. -/
theorem Closed.defineAs {name : String} {form : Form} (hg : g.Closed)
    (h : g.defineAs name form = .ok g') : g'.Closed := by
  unfold Grammar.defineAs at h
  cases hb : g.build form with
  | mk result g1 =>
    have hg1 : ∃ handles, g1 = { g with handles } := by
      unfold build at hb
      split at hb <;> cases hb <;> exact ⟨_, rfl⟩
    obtain ⟨handles, rfl⟩ := hg1
    rw [hb] at h
    cases result with
    | error e => cases h
    | ok x =>
      have hx : x.Within (· ∈ g.ids) := build_within (by rw [hb])
      dsimp only at h
      split at h
      · cases h
      · rename_i r hr
        cases hd : define { g with handles } r x with
        | error d => rw [hd] at h; cases h
        | ok g2 =>
          rw [hd] at h
          cases h
          intro r' hr'
          have hids : g'.ids = g.ids := by
            obtain ⟨-, rfl⟩ := define_ok hd
            exact ids_setBody _ r x
          rw [hids]
          rcases mentions_of_define hd hr' with hr' | hr'
          · exact hg r' hr'
          · exact hx r' hr'

theorem Closed.defineAll {rules : List RuleForm} (hg : g.Closed)
    (h : g.defineAll rules = .ok g') : g'.Closed := by
  induction rules generalizing g with
  | nil => cases h; exact hg
  | cons rule rest ih =>
    unfold Grammar.defineAll at h
    split at h
    · rename_i form hlazy hbody
      cases hd : g.defineAs rule.name form with
      | error e => rw [hd] at h; cases h
      | ok g1 => rw [hd] at h; exact ih (hg.defineAs hd) h
    · exact ih hg h

/-- The body of a rule before any body is made refers only to rules that names stand for. -/
theorem initialBody_refers {find : String → Option RuleId} {rule : RuleForm}
    (h : (rule.initialBody find).Refers r) : ∃ name, find name = some r := by
  unfold RuleForm.initialBody at h
  split at h
  · rename_i form _ _
    obtain ⟨handles, x, hx, hr⟩ := h
    dsimp only at hx
    cases hy : form.toExpr find handles with
    | error e handles' => rw [hy] at hx; cases hx
    | ok y handles' =>
      rw [hy] at hx
      cases hx
      have hwithin : (form.toExpr find).Yields (Expr.Within fun r => ∃ name, find name = some r) :=
        Form.toExpr_within (fun name _ hname => ⟨name, hname⟩) form
      exact hwithin _ _ _ hy r hr
  · exact h.elim

/-- A grammar that is described by forms refers to its own rules only. -/
theorem closed_ofForms {rules : List RuleForm} (h : ofForms rules = .ok g) : g.Closed := by
  refine Closed.defineAll ?_ h
  rintro r ⟨r', hr⟩
  unfold body at hr
  split at hr
  · rename_i rule hrule
    simp only [List.getElem?_toArray, List.getElem?_map, Option.map_eq_some_iff] at hrule
    obtain ⟨form, -, rfl⟩ := hrule
    obtain ⟨name, hname⟩ := initialBody_refers hr
    refine mem_ids_of_findFrom name ?_
    rw [← hname]
    simp [List.map_map, Function.comp_def]
  · exact hr.elim

end Grammar

end Packrat
