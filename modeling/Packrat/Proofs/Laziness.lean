import Packrat.Proofs.Coupling
import Packrat.Proofs.Mirror

/-!
# Bodies that are built on first use

A body that is built on first use could as well be given with a definition after all rules were
declared (`Grammar.twoPhase`). Which bodies were built already depends on the texts that were parsed
before, but whatever is built is what the definition gives, so each text gets the answer and the
trace that it would get alone (`Grammar.parseAll_two_phase`). The invariant is `Grammar.Completes`,
between the grammar as far as it was built and the one with all bodies given. It also holds where a
run was stopped by a fault.

To see that a body is built at most once, its builder is given a journal of its own
(`Grammar.observe`). The entries of this journal and the body that is still to be built are never
more than one together.
-/

namespace Packrat

/-! ## The two phases -/

/-- The body that is left if only what is given already stays. -/
def Body.declared : Body → Body
  | .delayed _ => .undefined
  | b => b

/-- Whether the body is built on first use. -/
def Body.isDelayed : Body → Bool
  | .delayed _ => true
  | _ => false

namespace Grammar

/-- The grammar in which the rules with bodies that are built on first use are only declared. -/
def declared (g : Grammar) : Grammar :=
  { g with rules := g.rules.map fun rule => { rule with body := rule.body.declared } }

/-- The rules with bodies that are built on first use. -/
def lazyRules (g : Grammar) : List RuleId := g.ids.filter fun r => (g.body r).isDelayed

/-- Gives rules their bodies, one after the other. -/
def defineEach (g : Grammar) (bodies : Nat → Expr) (rs : List RuleId) : Except Defect Grammar :=
  rs.foldlM (fun g r => g.define r (bodies r.index)) g

/-- The grammar that declares the rules with bodies that are built on first use, and then gives them
these bodies. -/
def twoPhase (g : Grammar) (bodies : Nat → Expr) : Except Defect Grammar :=
  g.declared.defineEach bodies g.lazyRules

/-- `g'` has given all bodies that `g` has or builds on first use. -/
structure Completes (g g' : Grammar) : Prop where
  size : g'.rules.size = g.rules.size
  skipsBlanks : ∀ r, g'.skipsBlanks r = g.skipsBlanks r
  body : ∀ r, ((g.body r).Means none ∧ g'.body r = .undefined) ∨
    ∃ x, (g.body r).Means (some (.ok x)) ∧ g'.body r = .defined x

variable {g g' : Grammar} {bodies : Nat → Expr} {r : RuleId}

/-- Declaring leaves the bodies that were given already. -/
theorem body_declared (g : Grammar) (r : RuleId) : g.declared.body r = (g.body r).declared := by
  unfold body declared
  rw [Array.getElem?_map]
  cases g.rules[r.index]? <;> rfl

theorem skipsBlanks_declared (g : Grammar) (r : RuleId) :
    g.declared.skipsBlanks r = g.skipsBlanks r := by
  unfold skipsBlanks declared
  rw [Array.getElem?_map]
  cases g.rules[r.index]? <;> rfl

theorem map_index_ids (g : Grammar) : g.ids.map RuleId.index = List.range g.rules.size := by
  refine List.ext_getElem (by simp [ids]) fun i _ _ => ?_
  simp [ids]

/-- No rule is given its body twice. -/
theorem nodup_index_lazyRules (g : Grammar) : (g.lazyRules.map RuleId.index).Nodup := by
  have hsub : (g.lazyRules.map RuleId.index).Sublist (List.range g.rules.size) := by
    rw [← map_index_ids]
    exact List.filter_sublist.map _
  exact hsub.nodup List.nodup_range

/-- The rules that are given their bodies are those that build them. -/
theorem mem_index_lazyRules :
    r.index ∈ g.lazyRules.map RuleId.index ↔ (g.body r).isDelayed = true := by
  constructor
  · intro h
    obtain ⟨r', hr', hi⟩ := List.mem_map.mp h
    rw [← body_congr_index g hi]
    exact (List.mem_filter.mp hr').2
  · intro h
    have hlt : r.index < g.rules.size := by
      refine index_lt_of_body_ne fun hun => ?_
      rw [hun] at h
      cases h
    have hid : r.index ∈ g.ids.map RuleId.index := by
      rw [map_index_ids]
      exact List.mem_range.mpr hlt
    obtain ⟨r', hr', hi⟩ := List.mem_map.mp hid
    refine List.mem_map.mpr ⟨r', List.mem_filter.mpr ⟨hr', ?_⟩, hi⟩
    rw [body_congr_index g hi]
    exact h

/-- Bodies are given to rules that have none yet, each once. -/
theorem defineEach_ok {rs : List RuleId} (hnodup : (rs.map RuleId.index).Nodup)
    (hrs : ∀ r ∈ rs, r.index < g.rules.size ∧ g.body r = .undefined) :
    ∃ g', g.defineEach bodies rs = .ok g' ∧ g'.rules.size = g.rules.size ∧
      (∀ r, g'.skipsBlanks r = g.skipsBlanks r) ∧
      ∀ r, g'.body r = if r.index ∈ rs.map RuleId.index then .defined (bodies r.index)
        else g.body r := by
  induction rs generalizing g with
  | nil => exact ⟨g, rfl, rfl, fun _ => rfl, fun _ => rfl⟩
  | cons r rest ih =>
    obtain ⟨hr, hnodup'⟩ := List.nodup_cons.mp hnodup
    obtain ⟨hlt, hun⟩ := hrs r List.mem_cons_self
    -- the other rules are still without a body, as no index comes twice
    have hrest : ∀ r' ∈ rest, r'.index < (g.setBody r (bodies r.index)).rules.size ∧
        (g.setBody r (bodies r.index)).body r' = .undefined := by
      intro r' hr'
      have hne : r'.index ≠ r.index := by
        intro heq
        exact hr (heq ▸ List.mem_map_of_mem hr')
      obtain ⟨hlt', hun'⟩ := hrs r' (List.mem_cons_of_mem _ hr')
      rw [size_setBody, body_setBody, if_neg fun h => hne h.1.symm]
      exact ⟨hlt', hun'⟩
    obtain ⟨g', hg', hsize, hmodes, hbody⟩ := ih hnodup' hrest
    refine ⟨g', ?_, hsize.trans (size_setBody ..), fun r' => ?_, fun r' => ?_⟩
    · rw [defineEach, List.foldlM_cons, define, hun]
      exact hg'
    · rw [hmodes, skipsBlanks_setBody]
    · rw [hbody, body_setBody, List.map_cons]
      by_cases hmem : r'.index ∈ rest.map RuleId.index
      · rw [if_pos hmem, if_pos (List.mem_cons_of_mem _ hmem)]
      · rw [if_neg hmem]
        by_cases hi : r.index = r'.index
        · rw [if_pos ⟨hi, hlt⟩, if_pos (hi ▸ List.mem_cons_self), hi]
        · rw [if_neg fun h => hi h.1, if_neg]
          intro h
          rcases List.mem_cons.mp h with h | h
          · exact hi h.symm
          · exact hmem h

/-- A grammar whose builders succeed, each with one fixed body, has a version in two phases, with
the same rules, modes and bodies. -/
theorem completes_twoPhase (hbodies : ∀ r build, g.body r = .delayed build →
      ∀ handles, (build.apply handles).1 = .ok (bodies r.index)) :
    ∃ g', g.twoPhase bodies = .ok g' ∧ g.Completes g' := by
  have hrs : ∀ r ∈ g.lazyRules, r.index < g.declared.rules.size ∧
      g.declared.body r = .undefined := by
    intro r hr
    have hdelayed := (List.mem_filter.mp hr).2
    rw [body_declared]
    cases hb : g.body r with
    | undefined => rw [hb] at hdelayed; cases hdelayed
    | defined x => rw [hb] at hdelayed; cases hdelayed
    | delayed build =>
      refine ⟨?_, rfl⟩
      rw [declared, Array.size_map]
      exact index_lt_of_body_ne (by simp [hb])
  obtain ⟨g', hg', hsize, hmodes, hbody⟩ := defineEach_ok g.nodup_index_lazyRules hrs
  refine ⟨g', hg', hsize.trans Array.size_map, fun r => ?_, fun r => ?_⟩
  · rw [hmodes, skipsBlanks_declared]
  · rw [hbody, body_declared]
    simp only [mem_index_lazyRules]
    cases hb : g.body r with
    | undefined => exact .inl ⟨rfl, rfl⟩
    | defined x => exact .inr ⟨x, rfl, rfl⟩
    | delayed build => exact .inr ⟨bodies r.index, ⟨_, rfl, hbodies r build hb⟩, rfl⟩

/-! ## Texts in turn -/

/-- Bodies that were given already stay. -/
theorem Completes.body_eq (h : g.Completes g') (hr : (g.body r).isDelayed = false) :
    g'.body r = g.body r := by
  cases hb : g.body r with
  | undefined =>
    rcases h.body r with ⟨-, hun⟩ | ⟨x, hx, -⟩
    · exact hun
    · rw [hb] at hx
      cases hx
  | defined y =>
    rcases h.body r with ⟨hun, -⟩ | ⟨x, hx, hx'⟩
    · rw [hb] at hun
      cases hun
    · rw [hb] at hx
      cases hx
      exact hx'
  | delayed build => rw [hb] at hr; cases hr

/-- Building a body on first use comes to what was given. -/
theorem Completes.built_eq {build : Hook Handles (Except Fault Expr × Handles)}
    (h : g.Completes g') (hb : g.body r = .delayed build) :
    ∃ x handles, (g.body r).Means (some (.ok x)) ∧ g'.body r = .defined x ∧
      Matcher.built g r build = (.ok x, { g with handles }.setBody r x) := by
  rcases h.body r with ⟨hun, -⟩ | ⟨x, hx, hx'⟩
  · rw [hb] at hun
    obtain ⟨_, ⟨⟩, -⟩ := hun
  · refine ⟨x, (build.apply g.handles).2, hx, hx', ?_⟩
    rw [hb] at hx
    obtain ⟨_, ⟨⟩, hall⟩ := hx
    have hresult := hall g.handles
    unfold Matcher.built
    cases ha : build.apply g.handles with
    | mk result handles =>
      rw [ha] at hresult
      cases hresult
      rfl

/-- A grammar stays completed by one that has all bodies, when one of these is built. -/
theorem Completes.setBody {x : Expr} (h : g.Completes g') (hx : g'.body r = .defined x)
    (handles : Handles) : ({ g with handles }.setBody r x).Completes g' where
  size := h.size.trans (size_setBody ..).symm
  skipsBlanks r' := (h.skipsBlanks r').trans (skipsBlanks_setBody ..).symm
  body r' := by
    rw [body_setBody]
    split
    next hi => exact .inr ⟨x, rfl, (body_congr_index g' hi.1.symm).trans hx⟩
    · exact h.body r'

end Grammar

/-- Runs with bodies that are built on first use, coupled with runs of the grammar `g'` that has
them given. -/
def Coupling.completed (g' : Grammar) : Coupling where
  ahead := 0
  modes := Eq
  history g es g₂ es' := g₂ = g' ∧ g.Completes g' ∧
    Event.trace es'.toList = Event.trace es.toList
  admits _ := True

/-- The trace grows by what an event adds to it. -/
theorem Event.trace_push (es : Array Event) (e : Event) :
    trace (es.push e).toList = trace es.toList ++ e.trace?.toList := by
  rw [trace, trace, Array.toList_push, List.filterMap_append]
  cases he : e.trace? <;> simp [he]

/-- The calls of functions leave no trace. -/
theorem State.trace_note {α : Type} (s : State) (journal : Option String) (text : α → String)
    (a : α) : Event.trace (s.note journal text a).events.toList = Event.trace s.events.toList := by
  cases journal with
  | none => rfl
  | some journal => exact (Event.trace_push ..).trans (List.append_nil _)

namespace Coupling

variable {g g' : Grammar}

/-- A run that builds bodies goes with one that finds them given. -/
theorem lawful_completed (g' : Grammar) (env : Env) : (completed g').Lawful env env where
  char _ := rfl
  length := rfl
  limit := rfl
  memoizing := rfl
  blanks := by
    rintro on _ p rfl
    rfl
  mode := by
    rintro g es _ es' r ⟨rfl, hg, -⟩
    exact (hg.skipsBlanks r).symm
  emit := by
    rintro g es _ es' e ⟨rfl, hg, htrace⟩ -
    refine ⟨rfl, hg, ?_⟩
    rw [Event.trace_push, Event.trace_push, htrace]
    exact congrArg _ (congrArg _ (congrArg _ e.shift_zero))
  call := by
    rintro g es _ es' x journal argument ⟨rfl, hg, htrace⟩ - -
    refine ⟨rfl, hg, ?_⟩
    rw [Event.trace_push, Event.trace_push, htrace]
  body := by
    rintro r s t ⟨hgt, hg, htrace⟩
    have hbody := hg.body_eq (r := r)
    rw [← hgt] at hbody
    cases hb : s.grammar.body r with
    | undefined =>
      rw [hb] at hbody
      rw [Matcher.run_body?_undefined hb, Matcher.run_body?_undefined (hbody rfl)]
      exact .ok ⟨rfl, nofun⟩ ⟨hgt, hg, htrace⟩
    | defined x =>
      rw [hb] at hbody
      rw [Matcher.run_body?_defined hb, Matcher.run_body?_defined (hbody rfl)]
      exact .ok ⟨rfl, fun _ _ _ _ => trivial⟩ ⟨hgt, hg, htrace⟩
    | delayed build =>
      obtain ⟨x, handles, -, hx, hbuilt⟩ := hg.built_eq hb
      rw [Matcher.run_body?_delayed hb, Matcher.run_body?_defined (hgt ▸ hx), hbuilt]
      refine .ok ⟨rfl, fun _ _ _ _ => trivial⟩ ⟨hgt, hg.setBody hx handles, ?_⟩
      rw [htrace]
      exact (s.trace_note ..).symm
  position _ := rfl

/-- Building a body adds no rules, so both runs have the same room. -/
theorem level_completed (g' : Grammar) (env : Env) : (completed g').Level env env := by
  refine ⟨rfl, ?_⟩
  rintro g es _ es' ⟨rfl, hg, -⟩
  rw [headroom, headroom, hg.size]

end Coupling

/-- Two reports with the same answer and the same trace. -/
structure Report.Alike (report report' : Report) : Prop where
  answer : report.answer = report'.answer
  trace : Event.trace report.events = Event.trace report'.events

namespace Grammar

/-- Each of the reports is like the one that its text gets alone. -/
def Reproduces (g : Grammar) (root : RuleId) (config : Config) : List String → List Report → Prop :=
  List.Forall₂ fun text report => report.Alike (g.parse root config text)

variable {g g' : Grammar}

/-- A text gets the answer and the trace that the completed grammar gives, and what was built in
between is completed by it as well. -/
theorem Completes.parse (h : g.Completes g') (root : RuleId) (config : Config) (text : String) :
    (g.parse root config text).Alike (g'.parse root config text) ∧
      (g.parse root config text).grammar.Completes g' := by
  obtain ⟨hanswer, -, hg, htrace⟩ := Coupling.parse_answer_eq
    (Coupling.lawful_completed g' (.ofText text config)) (Coupling.level_completed g' _) rfl
    ⟨rfl, h, rfl⟩ root
  exact ⟨⟨hanswer.symm, htrace.symm⟩, hg⟩

/-- So does each text of a series, whatever the texts before it have built. -/
theorem Completes.parseAll (h : g.Completes g') (root : RuleId) (config : Config)
    (texts : List String) : g'.Reproduces root config texts (g.parseAll root config texts) := by
  induction texts generalizing g with
  | nil => exact .nil
  | cons text rest ih =>
    obtain ⟨halike, hg⟩ := h.parse root config text
    exact .cons halike (ih hg)

end Grammar

/-! ## Once at most -/

/-- The body with calls of its builder noted in a journal. -/
def Body.observed (j : String) : Body → Body
  | .delayed build => .delayed { build with journal := some j }
  | b => b

/-- The journal `j` is kept for the builder of `r`: no other function notes its calls there. -/
structure Grammar.Reserves (g : Grammar) (r : RuleId) (j : String) : Prop where
  bodies : ∀ r' x (y : Expr), (g.body r').Means (some (.ok x)) → y.Occurs x → y.journal? ≠ some j
  builders : ∀ r' build, g.body r' = .delayed build → r'.index ≠ r.index → build.journal ≠ some j

namespace Grammar

/-- The grammar in which every building of the body of `r` is noted in a journal. -/
def observe (g : Grammar) (r : RuleId) (j : String) : Grammar :=
  { g with rules := g.rules.modify r.index fun rule => { rule with body := rule.body.observed j } }

/-- Only the builder of the observed rule gets a journal. -/
theorem body_observe (g : Grammar) (r r' : RuleId) (j : String) :
    (g.observe r j).body r' =
      if r.index = r'.index then (g.body r').observed j else g.body r' := by
  unfold body observe
  rw [Array.getElem?_modify]
  by_cases h : r.index = r'.index
  · simp only [h, if_true]
    cases g.rules[r'.index]? <;> rfl
  · simp only [h, if_false]

theorem skipsBlanks_observe (g : Grammar) (r r' : RuleId) (j : String) :
    (g.observe r j).skipsBlanks r' = g.skipsBlanks r' := by
  unfold skipsBlanks observe
  rw [Array.getElem?_modify]
  by_cases h : r.index = r'.index
  · simp only [h, if_true]
    cases g.rules[r'.index]? <;> rfl
  · simp only [h, if_false]

/-- The number of bodies that are still to be built for `r`. -/
def pending (g : Grammar) (r : RuleId) : Nat := (g.body r).isDelayed.toNat

/-- The times that a body was, or still is to be, built for `r`. -/
def tally (g : Grammar) (es : Array Event) (r : RuleId) (j : String) : Nat :=
  (Event.journal es.toList j).length + g.pending r

end Grammar

theorem Event.journal_push_of_ne {e : Event} {j : String} (h : ∀ argument, e ≠ .called j argument)
    (es : Array Event) : journal (es.push e).toList j = journal es.toList j := by
  rw [journal, journal, Array.toList_push, List.filterMap_append]
  cases e with
  | called journal argument =>
    have hne : journal ≠ j := by
      rintro rfl
      exact h argument rfl
    simp [hne]
  | _ => simp

theorem Event.length_journal_push_le (es : Array Event) (e : Event) (j : String) :
    (journal (es.push e).toList j).length ≤ (journal es.toList j).length + 1 := by
  rw [journal, journal, Array.toList_push, List.filterMap_append, List.length_append]
  exact Nat.add_le_add_left (List.length_filterMap_le _ [e]) _

/-- A call is noted in the journal of its own function only. -/
theorem State.journal_note_of_ne {α : Type} {journal : Option String} {j : String}
    (h : journal ≠ some j) (s : State) (text : α → String) (a : α) :
    Event.journal (s.note journal text a).events.toList j = Event.journal s.events.toList j := by
  cases journal with
  | none => rfl
  | some journal =>
    refine Event.journal_push_of_ne (fun argument he => ?_) s.events
    cases he
    exact h rfl

theorem State.length_journal_note_le {α : Type} (s : State) (journal : Option String)
    (text : α → String) (a : α) (j : String) :
    (Event.journal (s.note journal text a).events.toList j).length ≤
      (Event.journal s.events.toList j).length + 1 := by
  cases journal with
  | none => exact Nat.le_succ _
  | some journal => exact Event.length_journal_push_le s.events _ j

section

variable {g g' : Grammar} {r q : RuleId} {j : String} {n : Nat} {s t : State}

namespace Grammar

/-- A journal stays reserved when a body is built. -/
theorem Reserves.setBody {x : Expr} (h : g.Reserves r j) (hq : (g.body q).Means (some (.ok x)))
    (handles : Handles) : ({ g with handles }.setBody q x).Reserves r j where
  bodies r' z y hz hy := by
    rw [body_setBody] at hz
    split at hz
    · cases hz
      exact h.bodies q x y hq hy
    · exact h.bodies r' z y hz hy
  builders r' build hb hne := by
    rw [body_setBody] at hb
    split at hb
    · cases hb
    · exact h.builders r' build hb hne

/-- A body that was built is no longer pending. -/
theorem pending_setBody {x : Expr} (handles : Handles) (hlt : q.index < g.rules.size) :
    ({ g with handles }.setBody q x).pending r = if q.index = r.index then 0 else g.pending r := by
  rw [pending, body_setBody]
  by_cases hi : q.index = r.index
  · rw [if_pos ⟨hi, hlt⟩, if_pos hi]
    rfl
  · rw [if_neg fun h => hi h.1, if_neg hi]
    rfl

/-- Looking for a body keeps the tally: what is built is noted, and no longer pending. -/
theorem Completes.tally_body? (hg : s.grammar.Completes g') (hres : s.grammar.Reserves r j)
    (q : RuleId) :
    let u := Result.state (Matcher.body? q s)
    u.grammar.Reserves r j ∧ u.grammar.tally u.events r j ≤ s.grammar.tally s.events r j := by
  cases hb : s.grammar.body q with
  | undefined => rw [Matcher.run_body?_undefined hb]; exact ⟨hres, Nat.le_refl _⟩
  | defined x => rw [Matcher.run_body?_defined hb]; exact ⟨hres, Nat.le_refl _⟩
  | delayed build =>
    obtain ⟨x, handles, hmeans, -, hbuilt⟩ := hg.built_eq hb
    have hlt : q.index < s.grammar.rules.size := index_lt_of_body_ne (by simp [hb])
    rw [Matcher.run_body?_delayed hb, hbuilt]
    refine ⟨hres.setBody hmeans handles, ?_⟩
    change (Event.journal (s.note build.journal _ _).events.toList j).length +
      ({ s.grammar with handles }.setBody q x).pending r ≤ _
    rw [pending_setBody handles hlt, tally]
    split
    -- the body of `r` itself: at most one call more, and nothing pending any more
    next hi =>
      have hpending : s.grammar.pending r = 1 := by
        rw [pending, ← body_congr_index _ hi, hb]
        rfl
      have hnote := s.length_journal_note_le build.journal (fun _ => "build")
        s.grammar.handles j
      omega
    -- another body, whose builder does not use the journal
    next hi =>
      have hne := hres.builders q build hb hi
      rw [State.journal_note_of_ne hne]

/-- A body that is found is one that the grammar means. -/
theorem Completes.means_of_body? {x : Expr} (hg : s.grammar.Completes g')
    (h : Matcher.body? q s = .ok (some x) t) : (s.grammar.body q).Means (some (.ok x)) := by
  cases hb : s.grammar.body q with
  | undefined => rw [Matcher.run_body?_undefined hb] at h; cases h
  | defined y => rw [Matcher.run_body?_defined hb] at h; cases h; rfl
  | delayed build =>
    obtain ⟨y, handles, hmeans, -, hbuilt⟩ := hg.built_eq hb
    rw [Matcher.run_body?_delayed hb, hbuilt] at h
    cases h
    rw [← hb]
    exact hmeans

end Grammar

namespace Coupling

/-- As `completed`, where the tally for `r` does not go above `n`. -/
def counted (g' : Grammar) (r : RuleId) (j : String) (n : Nat) : Coupling where
  ahead := 0
  modes := Eq
  history g es g₂ es' := (completed g').history g es g₂ es' ∧ g.Reserves r j ∧ g.tally es r j ≤ n
  admits x := x.journal? ≠ some j

/-- The tally never goes up: a body that is built is noted once, and is pending no more. -/
theorem lawful_counted (g' : Grammar) (r : RuleId) (j : String) (n : Nat) (env : Env) :
    (counted g' r j n).Lawful env env where
  char _ := rfl
  length := rfl
  limit := rfl
  memoizing := rfl
  blanks := (lawful_completed g' env).blanks
  mode _ _ _ _ r h := (lawful_completed g' env).mode _ _ _ _ r h.1
  emit := by
    rintro g es g₂ es' e ⟨h, hres, hn⟩ he
    refine ⟨(lawful_completed g' env).emit _ _ _ _ e h he, hres, ?_⟩
    rwa [Grammar.tally, Event.journal_push_of_ne]
    rintro argument rfl
    cases he
  call := by
    rintro g es g₂ es' x journal argument ⟨h, hres, hn⟩ hx hj
    refine ⟨(lawful_completed g' env).call _ _ _ _ x journal argument h trivial hj, hres, ?_⟩
    rwa [Grammar.tally, Event.journal_push_of_ne]
    rintro _ ⟨⟩
    exact hx hj
  body := by
    rintro q s t ⟨h, hres, hn⟩
    have hbodies := (lawful_completed g' env).body q s t h
    have htally := h.2.1.tally_body? hres q
    have hmeans := fun x u => h.2.1.means_of_body? (q := q) (x := x) (t := u)
    generalize Matcher.body? q s = a at hbodies htally hmeans ⊢
    generalize Matcher.body? q t = b at hbodies ⊢
    cases hbodies with
    | error e hhist => exact .error e ⟨hhist, htally.1, htally.2.trans hn⟩
    | @ok x _ u w hxy hhist =>
      refine .ok ⟨hxy.1, ?_⟩ ⟨hhist, htally.1, htally.2.trans hn⟩
      rintro z rfl y hy
      exact hres.bodies q z y (hmeans z u rfl) hy
  position _ := rfl

end Coupling

namespace Grammar

/-- A run does not raise the tally. -/
theorem Completes.tally_parse (h : g.Completes g') (hres : g.Reserves r j) (root : RuleId)
    (config : Config) (text : String) :
    let report := g.parse root config text
    report.grammar.Completes g' ∧ report.grammar.Reserves r j ∧
      (Event.journal report.events j).length + report.grammar.pending r ≤ g.pending r := by
  have hlevel : (Coupling.counted g' r j (g.pending r)).Level (.ofText text config)
      (.ofText text config) :=
    ⟨rfl, fun g es g₂ es' h => (Coupling.level_completed g' _).2 g es g₂ es' h.1⟩
  obtain ⟨-, ⟨-, hg, -⟩, hres', hn⟩ := Coupling.parse_answer_eq
    (Coupling.lawful_counted g' r j (g.pending r) (.ofText text config)) hlevel rfl
    ⟨⟨rfl, h, rfl⟩, hres, (Nat.zero_add _).le⟩ root
  exact ⟨hg, hres', hn⟩

/-- Over a series of texts the builder is called no more often than it was pending. -/
theorem Completes.tally_parseAll (h : g.Completes g') (hres : g.Reserves r j) (root : RuleId)
    (config : Config) (texts : List String) :
    ((g.parseAll root config texts).flatMap fun report => Event.journal report.events j).length ≤
      g.pending r := by
  induction texts generalizing g with
  | nil => exact Nat.zero_le _
  | cons text rest ih =>
    obtain ⟨hg, hres', hn⟩ := h.tally_parse hres root config text
    have hrest := ih hg hres'
    rw [Grammar.parseAll, List.flatMap_cons, List.length_append]
    omega

/-- Observing a builder does not change what it builds. -/
theorem means_observe {r' : RuleId} {meaning : Option (Except Fault Expr)} :
    ((g.observe r j).body r').Means meaning ↔ (g.body r').Means meaning := by
  rw [body_observe]
  split
  · cases g.body r' <;> exact Iff.rfl
  · exact Iff.rfl

theorem Completes.observe (h : g.Completes g') (r : RuleId) (j : String) :
    (g.observe r j).Completes g' where
  size := h.size.trans (Array.size_modify ..).symm
  skipsBlanks r' := (h.skipsBlanks r').trans (skipsBlanks_observe ..).symm
  body r' := by
    simp only [means_observe]
    exact h.body r'

theorem Reserves.observe (h : g.Reserves r j) : (g.observe r j).Reserves r j where
  bodies r' x y hx hy := h.bodies r' x y (means_observe.mp hx) hy
  builders r' build hb hne := by
    rw [body_observe, if_neg hne.symm] at hb
    exact h.builders r' build hb hne

/-- Laziness and reuse of a grammar do not show: if its builders succeed, each with one fixed body,
then each of the texts that are parsed in turn gets the answer and the trace that it gets alone from
the version in two phases, also behind texts that were stopped by a fault. Over all the texts, each
body is built at most once; to note this in a journal changes nothing else. -/
theorem parseAll_two_phase (g : Grammar) (bodies : Nat → Expr)
    (hbodies : ∀ r build, g.body r = .delayed build →
      ∀ handles, (build.apply handles).1 = .ok (bodies r.index))
    (root : RuleId) (config : Config) (texts : List String) :
    ∃ g', g.twoPhase bodies = .ok g' ∧
      g'.Reproduces root config texts (g.parseAll root config texts) ∧
      ∀ r j, g.Reserves r j →
        let reports := (g.observe r j).parseAll root config texts
        g'.Reproduces root config texts reports ∧
          (reports.flatMap fun report => Event.journal report.events j).length ≤ 1 := by
  obtain ⟨g', hg', hc⟩ := completes_twoPhase hbodies
  refine ⟨g', hg', hc.parseAll root config texts, fun r j hres => ?_⟩
  have hobserved := hc.observe r j
  refine ⟨hobserved.parseAll root config texts, ?_⟩
  exact (hobserved.tally_parseAll hres.observe root config texts).trans (Bool.toNat_le _)

end Grammar

end

/-- A digit, or a letter for which no value can be built. -/
def Expr.fragile : Expr :=
  .choice [.builtin .digit,
    .sequence .unit [Expr.skipped (.builtin .letter)]
      { apply := fun _ => .error (.missingValue 0) }]

/-- A rule whose body is built on first use, and can stop a run. -/
def Grammar.fragile : Grammar where
  rules := #[⟨"item", true, .delayed { apply := fun handles => (.ok .fragile, handles) }⟩]

theorem Grammar.fragile_body (r : RuleId) : Grammar.fragile.body r =
    if r.index = 0 then .delayed { apply := fun handles => (.ok .fragile, handles) }
    else .undefined := by
  split
  next h => rw [body_congr_index _ (show r.index = (⟨0, "item"⟩ : RuleId).index from h)]; rfl
  next h =>
    have hsize : Grammar.fragile.rules.size ≤ r.index := Nat.one_le_iff_ne_zero.mpr h
    rw [body, Array.getElem?_eq_none hsize]

/-- No function of the grammar has a journal. -/
theorem Grammar.fragile_reserves (j : String) : Grammar.fragile.Reserves ⟨0, "item"⟩ j where
  bodies r x y hx hy := by
    rw [fragile_body] at hx
    split at hx
    · obtain ⟨_, ⟨⟩, hall⟩ := hx
      cases hall []
      cases hy with
      | here => exact nofun
      | alternative _ hmem hy =>
        simp only [List.mem_cons, List.not_mem_nil, or_false] at hmem
        rcases hmem with rfl | rfl
        · cases hy
          exact nofun
        · cases hy with
          | here => exact nofun
          | step _ _ _ hmem hy =>
            rw [List.mem_singleton.mp hmem] at hy
            cases hy
            exact nofun
    · cases hx
  builders r build hb hne := by
    rw [fragile_body, if_neg hne] at hb
    cases hb

/-- The second text finds the body that was built for the first one, which was stopped by a
fault. -/
theorem Grammar.parseAll_two_phase_fragile :
    let item : RuleId := ⟨0, "item"⟩
    ((Grammar.fragile.parseAll item {} ["a", "7"]).map fun report => report.answer.isOk) =
        [false, true] ∧
      ∃ g', Grammar.fragile.twoPhase (fun _ => .fragile) = .ok g' ∧
        g'.Reproduces item {} ["a", "7"] (Grammar.fragile.parseAll item {} ["a", "7"]) ∧
        (((Grammar.fragile.observe item "built").parseAll item {} ["a", "7"]).flatMap fun report =>
          Event.journal report.events "built").length ≤ 1 := by
  intro item
  have hbodies : ∀ r build, Grammar.fragile.body r = .delayed build →
      ∀ handles, (build.apply handles).1 = .ok .fragile := by
    intro r build hb handles
    rw [fragile_body] at hb
    split at hb
    · cases hb
      rfl
    · cases hb
  obtain ⟨g', hg', hall, honce⟩ := Grammar.parseAll_two_phase .fragile (fun _ => .fragile)
    hbodies item {} ["a", "7"]
  have hbuilt := honce item "built" (Grammar.fragile_reserves "built")
  exact ⟨by decide +kernel, g', hg', hall, hbuilt.2⟩

end Packrat
