import Packrat.Proofs.Room

/-!
# Failure trees

What an expression comes to at a position, without a state: a match, or a failure with the tree of
the failures that led to it (`Blame`). The tree of a composite has the trees of the parts that made
it fail, and its own failure at the root. `Expr.verdict` follows the structure of the expression;
what rules come to is a parameter.

An evaluation works on a stack of failures instead. Where it asks for a rule and gets what the
parameter says, the stack grows by the post-order listing of the tree (`Expr.verdict_of_run`), so
nothing of it depends on what was on the stack before.
-/

namespace Packrat

/-- Why an attempt failed: the failures of its parts, and its own. -/
inductive Blame where
  | of (parts : List Blame) (own : Failure)

namespace Blame

mutual

/-- The failures of a tree, those of the parts first. -/
def listing : Blame → List Failure
  | .of parts own => listings parts ++ [own]

/-- The failures of some trees, one tree after the other. -/
def listings : List Blame → List Failure
  | [] => []
  | b :: rest => b.listing ++ listings rest

end

/-- A failure without parts. -/
def leaf (position : Nat) (cause : Cause) : Blame := .of [] ⟨position, cause⟩

end Blame

/-- What an expression comes to. -/
inductive Verdict where
  | matched (stop : Nat) (value : Value)
  | failed (why : Blame)

namespace Verdict

/-- The outcome, without the failures. -/
def outcome : Verdict → Outcome Value
  | .matched stop v => .matched stop v
  | .failed _ => .failed

/-- The failures that are left. -/
def failures : Verdict → Array Failure
  | .matched _ _ => #[]
  | .failed why => why.listing.toArray

/-- What is remembered. -/
def entry : Verdict → Entry
  | .matched stop v => .success stop v
  | .failed why => .failure why.listing.toArray

/-- Extends a match by the blanks behind it. -/
def trailing (env : Env) (skipping : Bool) : Verdict → Verdict
  | .matched stop v => .matched (if skipping then env.skipBlanks stop else stop) v
  | .failed why => .failed why

end Verdict

/-- What reading one character comes to. -/
def scanVerdict (env : Env) (label : String) (test : Char → Bool) (p : Nat) : Verdict :=
  match env.text[p]? with
  | none => .failed (.leaf p (.tooShort label))
  | some c => if test c then .matched (p + 1) (.char c) else .failed (.leaf p (.wrong label))

/-- What reading `length` characters comes to. -/
def literalVerdict (env : Env) (length : Nat) (test : String → Bool) (p : Nat) : Verdict :=
  match env.slice? p length with
  | none => .failed (.leaf p (.tooShort "Literal"))
  | some text =>
    if test text then .matched (p + length) (.str text) else .failed (.leaf p (.wrong "Literal"))

/-- What a loop that collects matches behind `items` comes to: the items, where it ends, and why it
did not go on, if that was a failure. -/
def collectVerdict (count : Count) (verdict : Nat → Option Verdict) :
    (budget : Nat) → (items : Array Value) → (p : Nat) → Option (Array Value × Nat × List Blame)
  | 0, _, _ => none
  | budget + 1, items, p =>
    if count.isFull items.size then some (items, p, [])
    else match verdict p with
      | none => none
      | some (.failed why) => some (items, p, [why])
      | some (.matched stop v) =>
        if stop = p ∧ count.least ≤ (items.push v).size then some (items.push v, stop, [])
        else collectVerdict count verdict budget (items.push v) stop

/-- What a key comes to, before the blanks behind it, where `call` tells it of rules. -/
def Key.verdict (env : Env) (call : RuleId → Nat → Option Verdict) : Key → Nat → Option Verdict
  | .builtin c, p => some (scanVerdict env c.label c.holds p)
  | .rule r, p => call r p

namespace Expr

mutual

/-- What an expression comes to at a position, where `call` tells it of rules. There is no verdict
where a rule has none, or where a build function stops with a fault. -/
def verdict (env : Env) (skipping : Bool) (call : RuleId → Nat → Option Verdict) :
    Expr → Nat → Option Verdict
  | .builtin c, p => (Key.verdict env call (.builtin c) p).map (·.trailing env skipping)
  | .char test, p => some ((scanVerdict env "Character" test.apply p).trailing env skipping)
  | .literal length test, p => some ((literalVerdict env length test.apply p).trailing env skipping)
  | .empty, p => some (.matched p .unit)
  | .fail message, p => some (.failed (.leaf p (.custom message)))
  | .position, p => some (.matched p (.int p))
  | .rule r, p => (Key.verdict env call (.rule r) p).map (·.trailing env skipping)
  | .optionalAs _ x, p =>
    match x.verdict env skipping call p with
    | none => none
    | some (.matched stop v) => some (.matched stop (.some v))
    | some (.failed _) => some (.matched p .none)
  | .repeatedAs label x count, p =>
    match collectVerdict count (x.verdict env skipping call) (count.least + (env.length - p) + 1)
      #[] p with
    | none => none
    | some (items, stop, whys) =>
      if count.least ≤ items.size then some (.matched stop (.list items.toList))
      else some (.failed (.of whys ⟨p, .tooFew label items.size⟩))
  | .lookaheadAs label negated x, p =>
    match x.verdict env skipping call p with
    | none => none
    | some (.matched _ _) =>
      some (if negated then .failed (.leaf p (.wrong label)) else .matched p .unit)
    | some (.failed why) =>
      some (if negated then .matched p .unit else .failed (.of [why] ⟨p, .wrong label⟩))
  | .sequenceAs label _ steps build, p =>
    match stepsVerdict env skipping call steps p with
    | none => none
    | some (.error why) => some (.failed (.of [why] ⟨p, .wrong label⟩))
    | some (.ok (slots, stop)) =>
      match build.apply slots with
      | .ok v => some (.matched stop v)
      | .error _ => none
  | .choiceAs label xs, p =>
    match firstVerdict env skipping call xs p with
    | none => none
    | some (.ok (stop, v)) => some (.matched stop v)
    | some (.error whys) => some (.failed (.of whys ⟨p, .wrong label⟩))
  | .map _ f x, p =>
    match x.verdict env skipping call p with
    | none => none
    | some (.matched stop v) => some (.matched stop (f.apply v))
    | some (.failed why) => some (.failed why)

/-- What the steps of a sequence come to: the slots and the end, or why the first step that failed
did. -/
def stepsVerdict (env : Env) (skipping : Bool) (call : RuleId → Nat → Option Verdict) :
    List (Step Expr) → Nat → Option (Except Blame (Slots × Nat))
  | [], p => some (.ok ([], p))
  | ⟨x, store⟩ :: rest, p =>
    match x.verdict env skipping call p with
    | none => none
    | some (.failed why) => some (.error why)
    | some (.matched stop v) =>
      match stepsVerdict env skipping call rest stop with
      | none => none
      | some (.error why) => some (.error why)
      | some (.ok (slots, stop')) => some (.ok (store.map (⟨·, v⟩) :: slots, stop'))

/-- What the alternatives of a choice come to: the first match, or why all of them failed. -/
def firstVerdict (env : Env) (skipping : Bool) (call : RuleId → Nat → Option Verdict) :
    List Expr → Nat → Option (Except (List Blame) (Nat × Value))
  | [], _ => some (.error [])
  | x :: rest, p =>
    match x.verdict env skipping call p with
    | none => none
    | some (.matched stop v) => some (.ok (stop, v))
    | some (.failed why) =>
      match firstVerdict env skipping call rest p with
      | none => none
      | some (.ok result) => some (.ok result)
      | some (.error whys) => some (.error (why :: whys))

end

end Expr

/-- How an evaluation from `s` to `t` bears out a verdict: the outcome is the same, the cursor is
where it says, and the failures are on top of those that were there. -/
structure Explains (env : Env) (s : State) (o : Outcome Value) (t : State) (v : Verdict) :
    Prop where
  outcome : v.outcome = o
  cursor : t.cursor = o.stopFrom s.cursor
  inside : t.cursor ≤ env.length
  skipping : t.skipping = s.skipping
  failures : t.failures = s.failures ++ v.failures

/-- The same for the steps of a sequence, which leave the cursor behind the last that matched. -/
def ExplainsSteps (env : Env) (s t : State) (v : Option (Except Blame (Slots × Nat))) :
    Option Slots → Prop
  | none => ∃ why, v = some (.error why) ∧ t.skipping = s.skipping ∧
    t.failures = s.failures ++ why.listing.toArray
  | some slots => v = some (.ok (slots, t.cursor)) ∧ t.cursor ≤ env.length ∧
    t.skipping = s.skipping ∧ t.failures = s.failures

/-- The same for the alternatives of a choice, which leave the failures of those before a match. -/
def ExplainsFirst (env : Env) (s t : State) (v : Option (Except (List Blame) (Nat × Value))) :
    Outcome Value → Prop
  | .matched stop a => v = some (.ok (stop, a)) ∧ t.cursor = stop ∧ stop ≤ env.length ∧
    t.skipping = s.skipping ∧ ∃ fs, t.failures = s.failures ++ fs
  | .failed => ∃ whys, v = some (.error whys) ∧ t.cursor = s.cursor ∧ t.skipping = s.skipping ∧
    t.failures = s.failures ++ (Blame.listings whys).toArray

/-- The questions of a dialogue are answered as `call` tells. -/
def Dialogue.Told {α : Type} (env : Env) (call : RuleId → Nat → Option Verdict) (f : Key → Matcher)
    (d : Dialogue α) : Prop :=
  ∀ key u o v, d.Reaches f key u → f key u = .ok o v →
    ∃ w, key.verdict env call u.cursor = some w ∧ Explains env u o v (w.trailing env u.skipping)

section

variable {env : Env} {call : RuleId → Nat → Option Verdict} {f : Key → Matcher} {s t u : State}
  {o : Outcome Value}

/-! ## Parts of a dialogue -/

namespace Dialogue

variable {α β : Type} {key : Key} {d : Dialogue α} {g : α → State → Dialogue β}

theorem Told.left (h : (d.bind g).Told env call f) : d.Told env call f :=
  fun key u o v hu hr => h key u o v (hu.bind_left g) hr

theorem Told.right (h : (d.bind g).Told env call f) {a : α} (hr : d.run f = .ok a t) :
    (g a t).Told env call f := fun key u o v hu ha => h key u o v (.bind_right hr hu) ha

end Dialogue

/-! ## Steps of an evaluation -/

/-- Cutting back takes away just what was added. -/
theorem cutBack_append {fs : Array Failure} (h : t.failures = s.failures ++ fs) :
    (t.cutBack s.failures.size).failures = s.failures := by
  rw [State.cutBack_failures, h, Array.take_eq_extract, Array.extract_append_left,
    Array.extract_size]

namespace Explains

variable {v : Verdict}

theorem matched {stop : Nat} {a : Value} (hc : t.cursor = stop) (hle : stop ≤ env.length)
    (hk : t.skipping = s.skipping) (hf : t.failures = s.failures) :
    Explains env s (.matched stop a) t (.matched stop a) :=
  ⟨rfl, hc, hc ▸ hle, hk, by simp [Verdict.failures, hf]⟩

/-- An attempt at the cursor of `s` that fails after its parts left some failures. -/
theorem failed {parts : List Blame} (hs : s.cursor ≤ env.length) (hc : t.cursor = s.cursor)
    (hk : t.skipping = s.skipping)
    (hf : t.failures = s.failures ++ (Blame.listings parts).toArray) (cause : Cause) :
    Explains env s .failed (t.record cause) (.failed (.of parts ⟨s.cursor, cause⟩)) := by
  refine ⟨rfl, hc, by rw [State.record_cursor, hc]; exact hs, hk, ?_⟩
  rw [State.record_failures, hf, hc]
  simp [Verdict.failures, Blame.listing]

theorem leaf (hs : s.cursor ≤ env.length) (hc : t.cursor = s.cursor) (hk : t.skipping = s.skipping)
    (hf : t.failures = s.failures) (cause : Cause) :
    Explains env s .failed (t.record cause) (.failed (.leaf s.cursor cause)) :=
  .failed hs hc hk (by simp [Blame.listings, hf]) cause

/-- Blanks behind a match extend its verdict. -/
theorem trailing {o' : Outcome Value} (h : Explains env s o t v)
    (hr : Matcher.skippingBlanks env o t = .ok o' u) :
    Explains env s o' u (v.trailing env s.skipping) := by
  obtain ⟨rfl, hc, hle, hk, hf⟩ := h
  cases v with
  | failed why =>
    cases hr
    exact ⟨rfl, hc, hle, hk, hf⟩
  | matched stop a =>
    have hend : (t.skipBlanks env).cursor = if s.skipping then env.skipBlanks stop else stop := by
      rw [← hk, ← show t.cursor = stop from hc, State.skipBlanks]
      split <;> rfl
    cases hr
    rw [hend]
    refine .matched hend (hend ▸ (State.skipBlanks_bounds hle).2) ?_ ?_
    · rw [(State.Works.skipBlanks env t).skipping, hk]
    · rw [State.skipBlanks_failures, hf]
      simp [Verdict.failures]

theorem scan (hs : s.cursor ≤ env.length) (label : String) (test : Hook Char Bool) :
    ∃ o t, Matcher.scan env label test s = .ok o t ∧
      Explains env s o t (scanVerdict env label test.apply s.cursor) := by
  rw [Matcher.run_scan, scanVerdict]
  cases hc : env.text[s.cursor]? with
  | none => exact ⟨_, _, rfl, .leaf hs rfl rfl rfl _⟩
  | some c =>
    have hn := State.Works.note env s test.journal Char.toString c
    have hlt : s.cursor < env.length := (Array.getElem?_eq_some_iff.mp hc).1
    have hstop : ((s.note test.journal Char.toString c).advance env 1).cursor = s.cursor + 1 := by
      rw [State.advance, State.moveTo_cursor, State.note_cursor]
      omega
    dsimp only
    split
    · rw [hstop]
      exact ⟨_, _, rfl, .matched hstop hlt hn.skipping (State.note_failures ..)⟩
    · exact ⟨_, _, rfl, .leaf hs (State.note_cursor ..) hn.skipping (State.note_failures ..) _⟩

theorem char (hs : s.cursor ≤ env.length) (test : Hook Char Bool)
    (h : Matcher.char env test s = .ok o t) :
    Explains env s o t ((scanVerdict env "Character" test.apply s.cursor).trailing env
      s.skipping) := by
  obtain ⟨o', u, hu, hv⟩ := scan hs "Character" test
  rw [Matcher.char, ParseM.run_bind, hu] at h
  exact hv.trailing h

theorem literal (hs : s.cursor ≤ env.length) (length : Nat) (test : Hook String Bool)
    (h : Matcher.literal env length test s = .ok o t) :
    Explains env s o t ((literalVerdict env length test.apply s.cursor).trailing env
      s.skipping) := by
  rw [Matcher.run_literal] at h
  rw [literalVerdict]
  cases hslice : env.slice? s.cursor length with
  | none =>
    rw [hslice] at h
    cases h
    exact .leaf hs rfl rfl rfl _
  | some text =>
    rw [hslice] at h
    have hn := State.Works.note env s test.journal id text
    have hle : s.cursor + length ≤ env.length := by
      rw [Env.slice?] at hslice
      split at hslice
      · assumption
      · cases hslice
    dsimp only at h ⊢
    by_cases htest : test.apply text = true
    · rw [if_pos htest] at h ⊢
      have hstop : ((s.note test.journal id text).advance env length).cursor =
          s.cursor + length := by
        rw [State.advance, State.moveTo_cursor, State.note_cursor]
        omega
      exact (matched hstop hle hn.skipping (State.note_failures ..) (a := .str text)).trailing h
    · rw [if_neg htest] at h ⊢
      cases h
      exact .leaf hs (State.note_cursor ..) hn.skipping (State.note_failures ..) _

end Explains

/-! ## Expressions -/

/-- The rounds of a loop bear out what the loop comes to; why it stopped is left on the stack. -/
theorem collectVerdict_of_run {count : Count} {d : State → Dialogue (Outcome Value)}
    {verdict : Nat → Option Verdict} {skipping : Bool}
    (hd : ∀ s o t, s.cursor ≤ env.length → s.skipping = skipping → (d s).Told env call f →
      (d s).run f = .ok o t → ∃ v, verdict s.cursor = some v ∧ Explains env s o t v)
    (budget : Nat) (items : Array Value) (s : State) {result : Array Value}
    (hs : s.cursor ≤ env.length) (hk : s.skipping = skipping)
    (h : (Dialogue.collect count d budget items s).Told env call f)
    (hr : (Dialogue.collect count d budget items s).run f = .ok result t) :
    ∃ whys, collectVerdict count verdict budget items s.cursor = some (result, t.cursor, whys) ∧
      t.cursor ≤ env.length ∧ t.skipping = skipping ∧
      t.failures = s.failures ++ (Blame.listings whys).toArray := by
  induction budget generalizing items s with
  | zero => cases hr
  | succ budget ih =>
    rw [Dialogue.collect] at h hr
    rw [collectVerdict]
    by_cases hfull : count.isFull items.size = true
    · rw [if_pos hfull] at hr ⊢
      cases hr
      exact ⟨[], rfl, hs, hk, by simp [Blame.listings]⟩
    · rw [if_neg hfull] at h hr ⊢
      obtain ⟨o, u, hu, hrest⟩ := Dialogue.run_bind_ok hr
      obtain ⟨v, hv, hexp⟩ := hd s o u hs hk h.left hu
      have htold := h.right hu
      obtain ⟨rfl, hc, hle, hku, hf⟩ := hexp
      rw [hv]
      cases v with
      | failed why =>
        cases hrest
        refine ⟨[why], by rw [show t.cursor = s.cursor from hc], hle, hku.trans hk, ?_⟩
        rw [hf]
        simp [Verdict.failures, Blame.listings]
      | matched stop a =>
        have hstop : u.cursor = stop := hc
        have hfu : u.failures = s.failures := by rw [hf]; simp [Verdict.failures]
        dsimp only [Verdict.outcome] at hrest htold ⊢
        by_cases hzero : stop = s.cursor ∧ count.least ≤ (items.push a).size
        · rw [if_pos hzero] at hrest ⊢
          cases hrest
          exact ⟨[], by rw [hstop], hle, hku.trans hk, by simp [Blame.listings, hfu]⟩
        · rw [if_neg hzero] at hrest htold ⊢
          obtain ⟨whys, hwhys, hrest⟩ := ih (items.push a) u hle (hku.trans hk) htold hrest
          rw [hstop] at hwhys
          rw [hfu] at hrest
          exact ⟨whys, hwhys, hrest⟩

/-- A question comes to what was told of its key. -/
theorem verdict_of_question {key : Key} (h : (Dialogue.ask key s .done).Told env call f)
    (hr : (Dialogue.ask key s .done).run f = .ok o t) :
    ∃ v, (key.verdict env call s.cursor).map (·.trailing env s.skipping) = some v ∧
      Explains env s o t v := by
  have ha : f key s = .ok o t := by
    rw [Dialogue.run_ask] at hr
    cases hf : f key s <;> rw [hf] at hr <;> exact hr
  obtain ⟨w, hw, hexp⟩ := h key s o t (.here key s .done) ha
  exact ⟨_, by rw [hw]; rfl, hexp⟩

namespace Expr

/-- Every evaluation of an expression bears out its verdict, if its questions are answered as `call`
tells. -/
def BearsOut (env : Env) (call : RuleId → Nat → Option Verdict) (f : Key → Matcher) (x : Expr) :
    Prop :=
  ∀ (s : State) {o : Outcome Value} {t : State}, s.cursor ≤ env.length →
    (x.dialogue env s).Told env call f → (x.dialogue env s).run f = .ok o t →
      ∃ v, x.verdict env s.skipping call s.cursor = some v ∧ Explains env s o t v

/-- The same for the steps of a sequence. -/
def StepsBearOut (env : Env) (call : RuleId → Nat → Option Verdict) (f : Key → Matcher)
    (steps : List (Step Expr)) : Prop :=
  ∀ (s : State) {slots : Option Slots} {t : State}, s.cursor ≤ env.length →
    (stepsDialogue env steps s).Told env call f → (stepsDialogue env steps s).run f = .ok slots t →
      ExplainsSteps env s t (stepsVerdict env s.skipping call steps s.cursor) slots

/-- The same for the alternatives of a choice, all of which begin at `start`. -/
def FirstBearsOut (env : Env) (call : RuleId → Nat → Option Verdict) (f : Key → Matcher)
    (xs : List Expr) : Prop :=
  ∀ (s : State) {start : Nat} {o : Outcome Value} {t : State}, s.cursor ≤ env.length →
    s.cursor = start → (firstDialogue env start xs s).Told env call f →
      (firstDialogue env start xs s).run f = .ok o t →
        ExplainsFirst env s t (firstVerdict env s.skipping call xs s.cursor) o

namespace BearsOut

variable {x : Expr}

theorem optional (label : String) (hx : x.BearsOut env call f) :
    (optionalAs label x).BearsOut env call f := by
  intro s o t hs h hr
  rw [dialogue] at h hr
  obtain ⟨o', u, hu, hend⟩ := Dialogue.run_bind_ok hr
  obtain ⟨v, hv, rfl, hc, hle, hk, hf⟩ := hx s hs h.left hu
  rw [verdict, hv]
  have hcut := cutBack_append hf
  cases v with
  | matched stop a =>
    cases hend
    rw [show u.cursor = stop from hc] at hle ⊢
    exact ⟨_, rfl, .matched hc hle hk hcut⟩
  | failed why =>
    cases hend
    rw [show u.cursor = s.cursor from hc]
    exact ⟨_, rfl, .matched hc hs hk hcut⟩

/-- A repetition has what its loop collects; if that is too little, the attempt that ended the loop
is why it failed. -/
theorem repeated (label : String) (count : Count) (hx : x.BearsOut env call f) :
    (repeatedAs label x count).BearsOut env call f := by
  intro s o t hs h hr
  rw [dialogue] at h hr
  obtain ⟨items, u, hu, hend⟩ := Dialogue.run_bind_ok hr
  obtain ⟨whys, hw, hle, hk, hf⟩ := collectVerdict_of_run
    (fun s o t hs hk h hr => hk ▸ hx s hs h hr) _ _ s hs rfl h.left hu
  rw [verdict, hw]
  dsimp only at hend ⊢
  by_cases hleast : count.least ≤ items.size
  · rw [if_pos hleast] at hend ⊢
    cases hend
    exact ⟨_, rfl, .matched rfl hle hk (cutBack_append hf)⟩
  · rw [if_neg hleast] at hend ⊢
    cases hend
    exact ⟨_, rfl, .failed hs (moveTo_start hs u) hk hf _⟩

/-- A lookahead goes back to where it began, whatever its part came to. Only a part that should have
matched is a reason of its failure. -/
theorem lookahead (label : String) (negated : Bool) (hx : x.BearsOut env call f) :
    (lookaheadAs label negated x).BearsOut env call f := by
  intro s o t hs h hr
  rw [dialogue] at h hr
  obtain ⟨o', u, hu, hend⟩ := Dialogue.run_bind_ok hr
  obtain ⟨v, hv, rfl, hc, hle, hk, hf⟩ := hx s hs h.left hu
  rw [verdict, hv]
  have hback := moveTo_start hs u
  cases v with
  | matched stop a =>
    cases negated with
    | true =>
      have hfu : u.failures = s.failures := by rw [hf]; simp [Verdict.failures]
      cases hend
      exact ⟨_, rfl, .leaf hs hback hk hfu _⟩
    | false =>
      cases hend
      exact ⟨_, rfl, .matched hback hs hk (cutBack_append hf)⟩
  | failed why =>
    cases negated with
    | true =>
      cases hend
      exact ⟨_, rfl, .matched hback hs hk (cutBack_append hf)⟩
    | false =>
      cases hend
      refine ⟨_, rfl, .failed hs hback hk ?_ _⟩
      rw [State.moveTo_failures, hf]
      simp [Verdict.failures, Blame.listings]

/-- A sequence fails because its first failing step does, and otherwise has the value that its build
function makes. -/
theorem sequence (label : String) (type : ValueType) {steps : List (Step Expr)}
    (build : Hook Slots (Except Fault Value)) (hsteps : StepsBearOut env call f steps) :
    (sequenceAs label type steps build).BearsOut env call f := by
  intro s o t hs h hr
  rw [dialogue] at h hr
  obtain ⟨slots, u, hu, hend⟩ := Dialogue.run_bind_ok hr
  have hall := hsteps s hs h.left hu
  cases slots with
  | none =>
    obtain ⟨why, hwhy, hk, hf⟩ := hall
    rw [verdict, hwhy]
    cases hend
    refine ⟨_, rfl, .failed hs (moveTo_start hs u) hk ?_ _⟩
    rw [State.moveTo_failures, hf]
    simp [Blame.listings]
  | some slots =>
    obtain ⟨hslots, hle, hk, hf⟩ := hall
    have hcut : (u.cutBack s.failures.size).failures = s.failures :=
      cutBack_append (show u.failures = s.failures ++ #[] by simp [hf])
    rw [verdict, hslots]
    dsimp only at hend ⊢
    cases hb : build.apply slots with
    | error e =>
      rw [hb] at hend
      cases hend
    | ok a =>
      rw [hb] at hend
      have hn := State.Works.note env (u.cutBack s.failures.size) build.journal
        (fun _ => "run") slots
      have hcur := State.note_cursor (u.cutBack s.failures.size) build.journal (fun _ => "run")
        slots
      cases hend
      rw [hcur]
      exact ⟨_, rfl, .matched hcur hle (hn.skipping.trans hk)
        ((State.note_failures ..).trans hcut)⟩

/-- A choice drops the failures of the alternatives in front of a match, and keeps those of all if
none matches. -/
theorem choice (label : String) {xs : List Expr} (hxs : FirstBearsOut env call f xs) :
    (choiceAs label xs).BearsOut env call f := by
  intro s o t hs h hr
  rw [dialogue] at h hr
  obtain ⟨o', u, hu, hend⟩ := Dialogue.run_bind_ok hr
  have hfirst := hxs s hs rfl h.left hu
  cases o' with
  | matched stop a =>
    obtain ⟨hv, hc, hle, hk, fs, hf⟩ := hfirst
    rw [verdict, hv]
    cases hend
    exact ⟨_, rfl, .matched hc hle hk (cutBack_append hf)⟩
  | failed =>
    obtain ⟨whys, hv, hc, hk, hf⟩ := hfirst
    rw [verdict, hv]
    cases hend
    exact ⟨_, rfl, .failed hs hc hk hf _⟩

theorem map (type : ValueType) (g : Hook Value Value) (hx : x.BearsOut env call f) :
    (Expr.map type g x).BearsOut env call f := by
  intro s o t hs h hr
  rw [dialogue] at h hr
  obtain ⟨o', u, hu, hend⟩ := Dialogue.run_bind_ok hr
  obtain ⟨v, hv, rfl, hc, hle, hk, hf⟩ := hx s hs h.left hu
  rw [verdict, hv]
  cases v with
  | matched stop a =>
    have hn := State.Works.note env u g.journal Value.display a
    cases hend
    refine ⟨_, rfl, .matched ((State.note_cursor ..).trans hc) (hc.symm.le.trans hle)
      (hn.skipping.trans hk) ?_⟩
    rw [State.note_failures, hf]
    simp [Verdict.failures]
  | failed why =>
    cases hend
    exact ⟨_, rfl, rfl, hc, hle, hk, hf⟩

end BearsOut

/-- The steps go on where the first one has ended; if that one fails, they stop. -/
theorem StepsBearOut.cons {x : Expr} {rest : List (Step Expr)} (store : Option ValueType)
    (hx : x.BearsOut env call f) (hrest : StepsBearOut env call f rest) :
    StepsBearOut env call f (⟨x, store⟩ :: rest) := by
  intro s slots t hs h hr
  rw [stepsDialogue] at h hr
  obtain ⟨o, u, hu, hend⟩ := Dialogue.run_bind_ok hr
  obtain ⟨v, hv, rfl, hc, hle, hk, hf⟩ := hx s hs h.left hu
  have htold := h.right hu
  rw [stepsVerdict, hv]
  cases v with
  | failed why =>
    cases hend
    exact ⟨why, rfl, hk, hf⟩
  | matched stop a =>
    have hstop : u.cursor = stop := hc
    have hfu : u.failures = s.failures := by rw [hf]; simp [Verdict.failures]
    dsimp only [Verdict.outcome] at hend htold ⊢
    obtain ⟨slots', w, hw, hend⟩ := Dialogue.run_bind_ok hend
    have hothers := hrest u hle htold.left hw
    rw [hk, hstop] at hothers
    cases slots' with
    | none =>
      obtain ⟨why, hwhy, hk', hf'⟩ := hothers
      cases hend
      exact ⟨why, by rw [hwhy], hk'.trans hk, by rw [hf', hfu]⟩
    | some slots' =>
      obtain ⟨hslots, hle', hk', hf'⟩ := hothers
      cases hend
      exact ⟨by rw [hslots], hle', hk'.trans hk, hf'.trans hfu⟩

/-- Where the first alternative fails, the others begin at the same place, on top of its
failures. -/
theorem FirstBearsOut.cons {x : Expr} {rest : List Expr} (hx : x.BearsOut env call f)
    (hrest : FirstBearsOut env call f rest) : FirstBearsOut env call f (x :: rest) := by
  intro s start o t hs hstart h hr
  rw [firstDialogue] at h hr
  obtain ⟨o', u, hu, hend⟩ := Dialogue.run_bind_ok hr
  obtain ⟨v, hv, rfl, hc, hle, hk, hf⟩ := hx s hs h.left hu
  have htold := h.right hu
  rw [firstVerdict, hv]
  cases v with
  | matched stop a =>
    cases hend
    exact ⟨rfl, hc, hc.symm.le.trans hle, hk, _, hf⟩
  | failed why =>
    subst hstart
    have hback := moveTo_start hs u
    have hothers := hrest (u.moveTo env s.cursor) (hback.le.trans hs) hback htold hend
    rw [hback, show (u.moveTo env s.cursor).skipping = s.skipping from hk] at hothers
    cases o with
    | matched stop a =>
      obtain ⟨hv', hc', hle', hk', fs, hf'⟩ := hothers
      dsimp only
      rw [hv']
      refine ⟨rfl, hc', hle', hk'.trans hk, why.listing.toArray ++ fs, ?_⟩
      rw [hf', State.moveTo_failures, hf, Array.append_assoc]
      rfl
    | failed =>
      obtain ⟨whys, hv', hc', hk', hf'⟩ := hothers
      dsimp only
      rw [hv']
      refine ⟨why :: whys, rfl, hc'.trans hback, hk'.trans hk, ?_⟩
      rw [hf', State.moveTo_failures, hf]
      simp [Verdict.failures, Blame.listings]

mutual

/-- An evaluation bears out the verdict of its expression. -/
theorem verdict_of_run (x : Expr) : x.BearsOut env call f := by
  cases x with
  | builtin c =>
    intro s o t _ h hr
    rw [dialogue] at h hr
    rw [verdict]
    exact verdict_of_question h hr
  | char test =>
    intro s o t hs _ hr
    rw [dialogue, Dialogue.run_ofResult] at hr
    rw [verdict]
    exact ⟨_, rfl, .char hs test hr⟩
  | literal length test =>
    intro s o t hs _ hr
    rw [dialogue, Dialogue.run_ofResult] at hr
    rw [verdict]
    exact ⟨_, rfl, .literal hs length test hr⟩
  | empty =>
    intro s o t hs _ hr
    rw [dialogue] at hr
    cases hr
    rw [verdict]
    exact ⟨_, rfl, .matched rfl hs rfl rfl⟩
  | fail message =>
    intro s o t hs _ hr
    rw [dialogue] at hr
    cases hr
    rw [verdict]
    exact ⟨_, rfl, .leaf hs rfl rfl rfl _⟩
  | position =>
    intro s o t hs _ hr
    rw [dialogue] at hr
    cases hr
    rw [verdict]
    exact ⟨_, rfl, .matched rfl hs rfl rfl⟩
  | rule r =>
    intro s o t _ h hr
    rw [dialogue] at h hr
    rw [verdict]
    exact verdict_of_question h hr
  | optionalAs label x => exact .optional label (verdict_of_run x)
  | repeatedAs label x count => exact .repeated label count (verdict_of_run x)
  | lookaheadAs label negated x => exact .lookahead label negated (verdict_of_run x)
  | sequenceAs label type steps build =>
    exact .sequence label type build (stepsVerdict_of_run steps)
  | choiceAs label xs => exact .choice label (firstVerdict_of_run xs)
  | map type g x => exact .map type g (verdict_of_run x)

theorem stepsVerdict_of_run (steps : List (Step Expr)) : StepsBearOut env call f steps := by
  cases steps with
  | nil =>
    intro s slots t hs _ hr
    rw [stepsDialogue] at hr
    cases hr
    rw [stepsVerdict]
    exact ⟨rfl, hs, rfl, rfl⟩
  | cons step rest =>
    obtain ⟨x, store⟩ := step
    exact .cons store (verdict_of_run x) (stepsVerdict_of_run rest)

theorem firstVerdict_of_run (xs : List Expr) : FirstBearsOut env call f xs := by
  cases xs with
  | nil =>
    intro s start o t hs _ _ hr
    rw [firstDialogue] at hr
    cases hr
    rw [firstVerdict]
    exact ⟨[], rfl, rfl, rfl, by simp [Blame.listings]⟩
  | cons x rest => exact .cons (verdict_of_run x) (firstVerdict_of_run rest)

end

end Expr

end

end Packrat
