import Mathlib.Data.List.Forall2
import Packrat.Parse
import Packrat.Proofs.Base
import Packrat.Proofs.Dialogue
import Packrat.Proofs.Growth
import Packrat.Proofs.Shift

/-!
# Coupled runs

Two runs are coupled if they do the same at every step, up to what a `Coupling` lets differ: how far
one is ahead of the other in its text, the modes for blanks, the grammars, and the events that were
noted. Everything else corresponds exactly, with positions moved along: outcomes, failures, what is
remembered, the number of open rules, and where a run is halted.

`Coupling.Pairs` relates two actions that lead from corresponding states to corresponding results.
It follows the actions step by step, so each matcher is treated along its definition, and an
expression is coupled with itself if the rules in it are (`Coupling.couples_expr`). What has to be
known of a particular coupling is collected in `Coupling.Lawful`. Where no run is ahead, whole texts
get the same answer (`Coupling.parse_answer_eq`).
-/

namespace Packrat

/-! ## Couplings -/

/-- An expression that stands anywhere in another one. -/
inductive Expr.Occurs (y : Expr) : Expr → Prop where
  | here : Occurs y y
  | optional (label : String) {x : Expr} (h : Occurs y x) : Occurs y (.optionalAs label x)
  | repeated (label : String) (count : Count) {x : Expr} (h : Occurs y x) :
      Occurs y (.repeatedAs label x count)
  | lookahead (label : String) (negated : Bool) {x : Expr} (h : Occurs y x) :
      Occurs y (.lookaheadAs label negated x)
  | step (label : String) (type : ValueType) (build : Hook Slots (Except Fault Value))
      {steps : List (Step Expr)} {step : Step Expr} (hmem : step ∈ steps)
      (h : Occurs y step.body) : Occurs y (.sequenceAs label type steps build)
  | alternative (label : String) {xs : List Expr} {x : Expr} (hmem : x ∈ xs) (h : Occurs y x) :
      Occurs y (.choiceAs label xs)
  | map (type : ValueType) (f : Hook Value Value) {x : Expr} (h : Occurs y x) :
      Occurs y (.map type f x)

/-- The journal of the function that an expression calls itself. -/
def Expr.journal? : Expr → Option String
  | .char test => test.journal
  | .literal _ test => test.journal
  | .sequenceAs _ _ _ build => build.journal
  | .map _ f _ => f.journal
  | _ => none

/-- Whether an event is the call of a function. -/
def Event.isCall : Event → Bool
  | .called _ _ => true
  | _ => false

/-- Results of one kind: outcomes that are related by `A`, or the same halt, in states that are
related by `R`. -/
inductive Result.Related {α β : Type} (A : α → β → Prop) (R : State → State → Prop) :
    Result α → Result β → Prop where
  | ok {a : α} {b : β} {s t : State} (hab : A a b) (hst : R s t) : Related A R (.ok a s) (.ok b t)
  | error {s t : State} (h : Halt) (hst : R s t) : Related A R (.error h s) (.error h t)

/-- What may differ between two coupled runs. -/
structure Coupling where
  /-- How far the second run is ahead of the first. -/
  ahead : Nat
  /-- The modes for blanks that go together. -/
  modes : Bool → Bool → Prop
  /-- The grammars and events that go together. -/
  history : Grammar → Array Event → Grammar → Array Event → Prop
  /-- The expressions that may be met. -/
  admits : Expr → Prop

namespace Coupling

variable (c : Coupling) {α β : Type}

/-- Corresponding states of two coupled runs. -/
structure States (s t : State) : Prop where
  cursor : t.cursor = s.cursor + c.ahead
  failures : t.failures = s.failures.map (.shift c.ahead)
  memo : t.memo = s.memo.shift c.ahead
  skipping : c.modes s.skipping t.skipping
  depth : t.depth = s.depth
  overflowed : t.overflowed = s.overflowed
  history : c.history s.grammar s.events t.grammar t.events

/-- Actions that lead from corresponding states to corresponding results. -/
def Pairs (A : α → β → Prop) (m : ParseM α) (m' : ParseM β) : Prop :=
  ∀ s t, c.States s t → Result.Related A c.States (m s) (m' t)

/-- Matchers that come to the same outcome, moved along. -/
def Couples (m m' : Matcher) : Prop := c.Pairs (fun o o' => o' = o.shift c.ahead) m m'

/-- All that occurs in the expression is admitted. -/
def Admits (x : Expr) : Prop := ∀ y, y.Occurs x → c.admits y

/-- Both runs find the same body, or none, and it is admitted. -/
def Bodies (x y : Option Expr) : Prop := y = x ∧ ∀ z, x = some z → c.Admits z

/-- The grammars and events of two states go together. -/
def Histories (s t : State) : Prop := c.history s.grammar s.events t.grammar t.events

/-- What couples the runs over two texts. -/
structure Lawful (env env' : Env) : Prop where
  /-- The second run finds the text of the first further on. -/
  char : ∀ p, env'.text[p + c.ahead]? = env.text[p]?
  /-- There is nothing behind it. -/
  length : env'.length = env.length + c.ahead
  limit : env'.limit = env.limit
  memoizing : env'.memoizing = env.memoizing
  /-- Modes that go together skip the same blanks. -/
  blanks : ∀ on on' p, c.modes on on' →
    (if on' then env'.skipBlanks (p + c.ahead) else p + c.ahead) =
      (if on then env.skipBlanks p else p) + c.ahead
  /-- The rules of grammars that go together have such modes. -/
  mode : ∀ g es g' es' r, c.history g es g' es' → c.modes (g.skipsBlanks r) (g'.skipsBlanks r)
  /-- Both runs may note what their rules do. -/
  emit : ∀ g es g' es' e, c.history g es g' es' → e.isCall = false →
    c.history g (es.push e) g' (es'.push (e.shift c.ahead))
  /-- Both runs may call the functions of the expressions that are admitted. -/
  call : ∀ g es g' es' x journal argument, c.history g es g' es' → c.admits x →
    x.journal? = some journal → c.history g (es.push (.called journal argument)) g'
      (es'.push (.called journal argument))
  /-- Both runs find the same bodies. -/
  body : ∀ r s t, c.Histories s t →
    Result.Related c.Bodies c.Histories (Matcher.body? r s) (Matcher.body? r t)
  /-- A position is a value that would differ. -/
  position : c.admits .position → c.ahead = 0

end Coupling

section

variable {c : Coupling} {env env' : Env} {α β γ δ : Type} {s t : State}

/-! ## Actions one after the other -/

namespace Coupling.Pairs

variable {A : α → β → Prop} {B : γ → δ → Prop}

theorem pure {a : α} {b : β} (h : A a b) : c.Pairs A (Pure.pure a) (Pure.pure b) :=
  fun _ _ hst => .ok h hst

theorem bind {m : ParseM α} {m' : ParseM β} {f : α → ParseM γ} {f' : β → ParseM δ}
    (hm : c.Pairs A m m') (hf : ∀ a b, A a b → c.Pairs B (f a) (f' b)) :
    c.Pairs B (m >>= f) (m' >>= f') := by
  intro s t hst
  have h := hm s t hst
  rw [ParseM.run_bind, ParseM.run_bind]
  generalize m s = r at h
  generalize m' t = r' at h
  cases h with
  | ok hab hst => exact hf _ _ hab _ _ hst
  | error e hst => exact .error e hst

theorem get : c.Pairs c.States MonadState.get MonadState.get := fun _ _ hst => .ok hst hst

theorem modify {f f' : State → State} (h : ∀ s t, c.States s t → c.States (f s) (f' t)) :
    c.Pairs (fun _ _ => True) (modify f) (modify f') :=
  fun s t hst => .ok trivial (h s t hst)

theorem modifyGet {f : State → α × State} {f' : State → β × State}
    (h : ∀ s t, c.States s t → A (f s).1 (f' t).1 ∧ c.States (f s).2 (f' t).2) :
    c.Pairs A (MonadState.modifyGet f : ParseM α) (MonadState.modifyGet f' : ParseM β) :=
  fun s t hst => .ok (h s t hst).1 (h s t hst).2

theorem throw (h : Halt) : c.Pairs A (MonadExcept.throw h) (MonadExcept.throw h) :=
  fun _ _ hst => .error h hst

end Coupling.Pairs

/-! ## Operations on states -/

namespace Coupling.States

theorem record (h : c.States s t) (cause : Cause) :
    c.States (s.record cause) (t.record cause) where
  cursor := h.cursor
  failures := by
    rw [State.record_failures, State.record_failures, h.failures, h.cursor, Array.map_push]
    rfl
  memo := h.memo
  skipping := h.skipping
  depth := h.depth
  overflowed := h.overflowed
  history := h.history

theorem cutBack (h : c.States s t) (height : Nat) :
    c.States (s.cutBack height) (t.cutBack height) where
  cursor := h.cursor
  failures := by
    rw [State.cutBack_failures, State.cutBack_failures, h.failures]
    simp only [Array.take_eq_extract, Array.map_extract]
  memo := h.memo
  skipping := h.skipping
  depth := h.depth
  overflowed := h.overflowed
  history := h.history

/-- Moving failures along leaves their number. -/
theorem size_failures (h : c.States s t) : t.failures.size = s.failures.size := by
  rw [h.failures, Array.size_map]

theorem withCursor (h : c.States s t) (p : Nat) :
    c.States { s with cursor := p } { t with cursor := p + c.ahead } :=
  ⟨rfl, h.failures, h.memo, h.skipping, h.depth, h.overflowed, h.history⟩

theorem withFailures (h : c.States s t) {failures failures' : Array Failure}
    (hf : failures' = failures.map (.shift c.ahead)) :
    c.States { s with failures } { t with failures := failures' } :=
  ⟨h.cursor, hf, h.memo, h.skipping, h.depth, h.overflowed, h.history⟩

theorem withSkipping (h : c.States s t) {on on' : Bool} (hmodes : c.modes on on') :
    c.States { s with skipping := on } { t with skipping := on' } :=
  ⟨h.cursor, h.failures, h.memo, hmodes, h.depth, h.overflowed, h.history⟩

theorem withDepth (h : c.States s t) {n n' : Nat} (hn : n' = n) :
    c.States { s with depth := n } { t with depth := n' } :=
  ⟨h.cursor, h.failures, h.memo, h.skipping, hn, h.overflowed, h.history⟩

theorem overflow (h : c.States s t) :
    c.States { s with overflowed := true } { t with overflowed := true } :=
  ⟨h.cursor, h.failures, h.memo, h.skipping, h.depth, rfl, h.history⟩

/-- The cursors go to corresponding positions, even where the end of the text stops them. -/
theorem moveTo (hc : c.Lawful env env') (h : c.States s t) (p : Nat) :
    c.States (s.moveTo env p) (t.moveTo env' (p + c.ahead)) := by
  have hmin : min (p + c.ahead) env'.length = min p env.length + c.ahead := by
    rw [hc.length]
    omega
  unfold State.moveTo
  rw [hmin]
  exact h.withCursor _

theorem advance (hc : c.Lawful env env') (h : c.States s t) (n : Nat) :
    c.States (s.advance env n) (t.advance env' n) := by
  have hmove := h.moveTo hc (s.cursor + n)
  rw [Nat.add_right_comm, ← h.cursor] at hmove
  exact hmove

/-- Modes that go together skip to corresponding positions. -/
theorem skipBlanks (hc : c.Lawful env env') (h : c.States s t) :
    c.States (s.skipBlanks env) (t.skipBlanks env') := by
  have hform : ∀ (env : Env) (s : State), s.skipBlanks env =
      { s with cursor := if s.skipping then env.skipBlanks s.cursor else s.cursor } := by
    intro env s
    unfold State.skipBlanks
    split <;> rfl
  rw [hform env s, hform env' t, h.cursor, hc.blanks _ _ s.cursor h.skipping]
  exact h.withCursor _

theorem emit (hc : c.Lawful env env') (h : c.States s t) (e : Event) (he : e.isCall = false) :
    c.States (s.emit e) (t.emit (e.shift c.ahead)) :=
  ⟨h.cursor, h.failures, h.memo, h.skipping, h.depth, h.overflowed,
    hc.emit _ _ _ _ e h.history he⟩

theorem note (hc : c.Lawful env env') (h : c.States s t) {x : Expr} (hx : c.admits x)
    (text : α → String) (a : α) :
    c.States (s.note x.journal? text a) (t.note x.journal? text a) := by
  cases hj : x.journal? with
  | none => exact h
  | some journal =>
    exact ⟨h.cursor, h.failures, h.memo, h.skipping, h.depth, h.overflowed,
      hc.call _ _ _ _ x journal _ h.history hx hj⟩

/-- The memos hold corresponding entries. -/
theorem known? (hc : c.Lawful env env') (h : c.States s t) (key : Key) :
    t.known? env' key = (s.known? env key).map (.shift c.ahead) := by
  unfold State.known?
  rw [hc.memoizing, h.memo, h.cursor, Memo.find?_shift]
  split <;> rfl

theorem atLimit (hc : c.Lawful env env') (h : c.States s t) : t.atLimit env' = s.atLimit env := by
  unfold State.atLimit
  rw [hc.limit, h.depth]

/-- What is worked out on corresponding levels is remembered at corresponding places. -/
theorem settle (hc : c.Lawful env env') (h : c.States s t) (key : Key) (start : Nat)
    (outer : Array Failure) (o : Outcome Value) :
    c.States (s.settle env key start outer o)
      (t.settle env' key (start + c.ahead) (outer.map (.shift c.ahead)) (o.shift c.ahead)) := by
  rw [State.settle_eq, State.settle_eq, hc.memoizing, h.overflowed, h.failures,
    Outcome.isMatched_shift, ← Entry.shift_ofOutcome, h.memo, Memo.insert_shift]
  refine ⟨h.cursor, ?_, ?_, h.skipping, h.depth, rfl, h.history⟩
  · dsimp only
    split
    · rfl
    · rw [Array.map_append]
  · dsimp only
    split <;> rfl

end Coupling.States

/-! ## Texts -/

/-- The slices of the two texts are the same, further on. -/
theorem Coupling.Lawful.slice? (hc : c.Lawful env env') (p n : Nat) :
    env'.slice? (p + c.ahead) n = env.slice? p n := by
  unfold Env.slice?
  have hle : p + c.ahead + n ≤ env'.length ↔ p + n ≤ env.length := by
    rw [hc.length]
    omega
  have hpart : env'.text.extract (p + c.ahead) (p + c.ahead + n) =
      env.text.extract p (p + n) := by
    refine Array.ext_getElem? fun i => ?_
    rw [Array.getElem?_extract, Array.getElem?_extract, Nat.add_right_comm p c.ahead i,
      hc.char]
    have hsize : env'.text.size = env.text.size + c.ahead := hc.length
    rw [hsize]
    congr 1
    simp only [eq_iff_iff]
    omega
  simp only [hle, hpart]

/-! ## Matchers -/

namespace Coupling

variable {m m' : Matcher}

theorem couples_fail (cause : Cause) : c.Couples (Matcher.fail cause) (Matcher.fail cause) :=
  .bind (.modify fun _ _ h => h.record cause) fun _ _ _ => .pure rfl

theorem couples_succeed (v : Value) : c.Couples (Matcher.succeed v) (Matcher.succeed v) := by
  refine .bind .get fun s t h => .pure ?_
  rw [h.cursor]
  rfl

/-- A call gives the same answer on both sides, and corresponding events. -/
theorem pairs_call (hc : c.Lawful env env') {x : Expr} (hx : c.admits x) (f : Hook α β)
    (hf : x.journal? = f.journal) (text : α → String) (a : α) :
    c.Pairs Eq (Matcher.call f text a) (Matcher.call f text a) := by
  refine .bind (.modify fun s t h => ?_) fun _ _ _ => .pure rfl
  rw [← hf]
  exact h.note hc hx text a

theorem couples_skippingBlanks (hc : c.Lawful env env') (o : Outcome Value) :
    c.Couples (Matcher.skippingBlanks env o) (Matcher.skippingBlanks env' (o.shift c.ahead)) := by
  cases o with
  | failed => exact .pure rfl
  | matched stop v =>
    exact .bind (.modify fun _ _ h => h.skipBlanks hc) fun _ _ _ => couples_succeed v

theorem couples_replay (entry : Entry) :
    c.Couples (Matcher.replay entry) (Matcher.replay (entry.shift c.ahead)) := by
  cases entry with
  | success stop v => exact .bind (.modify fun _ _ h => h.withCursor stop) fun _ _ _ => .pure rfl
  | failure failures =>
    refine .bind (.modify fun s t h => ?_) fun _ _ _ => .pure rfl
    refine h.withFailures ?_
    rw [h.failures, Array.map_append]

theorem couples_remembering (hc : c.Lawful env env') (key : Key) (hm : c.Couples m m') :
    c.Couples (Matcher.remembering env key m) (Matcher.remembering env' key m') := by
  refine .bind .get fun s t h => ?_
  refine .bind (A := fun outer outer' => outer' = outer.map (.shift c.ahead))
    (.modifyGet fun s t h => ⟨h.failures, h.withFailures Array.map_empty.symm⟩)
    fun outer _ houter => ?_
  subst houter
  refine .bind hm fun o _ ho => ?_
  subst ho
  refine .bind (.modify fun u w hend => ?_) fun _ _ _ => .pure rfl
  rw [h.cursor]
  exact hend.settle hc key s.cursor outer o

/-! ### Terminals -/

theorem couples_scan (hc : c.Lawful env env') (label : String) (test : Hook Char Bool)
    (hcall : ∀ ch, c.Pairs Eq (Matcher.call test Char.toString ch)
      (Matcher.call test Char.toString ch)) :
    c.Couples (Matcher.scan env label test) (Matcher.scan env' label test) := by
  refine .bind .get fun s t h => ?_
  rw [h.cursor, hc.char]
  cases env.text[s.cursor]? with
  | none => exact couples_fail _
  | some ch =>
    refine .bind (hcall ch) fun ok _ hok => ?_
    subst hok
    split
    · exact .bind (.modify fun _ _ h => h.advance hc 1) fun _ _ _ => couples_succeed _
    · exact couples_fail _

theorem couples_char (hc : c.Lawful env env') (test : Hook Char Bool) (hx : c.admits (.char test)) :
    c.Couples (Matcher.char env test) (Matcher.char env' test) := by
  refine .bind (couples_scan hc _ test fun ch => pairs_call hc hx test rfl _ ch) fun o _ ho => ?_
  subst ho
  exact couples_skippingBlanks hc o

theorem couples_builtin (hc : c.Lawful env env') (cl : CharClass) :
    c.Couples (Matcher.builtin env cl) (Matcher.builtin env' cl) := by
  refine .bind .get fun s t h => ?_
  rw [h.known? hc]
  cases s.known? env (.builtin cl) with
  | some entry =>
    refine .bind (couples_replay entry) fun o _ ho => ?_
    subst ho
    exact couples_skippingBlanks hc o
  | none =>
    have hscan := couples_scan hc cl.label { apply := cl.holds } fun ch =>
      .bind (.modify fun _ _ h => h) fun _ _ _ => .pure rfl
    refine .bind (couples_remembering hc (.builtin cl) hscan) fun o _ ho => ?_
    subst ho
    exact couples_skippingBlanks hc o

/-- The test of a literal is called with the same slice. -/
theorem couples_literal (hc : c.Lawful env env') (length : Nat) (test : Hook String Bool)
    (hx : c.admits (.literal length test)) :
    c.Couples (Matcher.literal env length test) (Matcher.literal env' length test) := by
  refine .bind .get fun s t h => ?_
  rw [h.cursor, hc.slice?]
  cases env.slice? s.cursor length with
  | none => exact couples_fail _
  | some text =>
    refine .bind (pairs_call hc hx test rfl id text) fun ok _ hok => ?_
    subst hok
    split
    · refine .bind (.modify fun _ _ h => h.advance hc length) fun _ _ _ => ?_
      refine .bind (couples_succeed _) fun o _ ho => ?_
      subst ho
      exact couples_skippingBlanks hc o
    · exact couples_fail _

/-! ### Composites -/

theorem couples_optional (hm : c.Couples m m') :
    c.Couples (Matcher.optional m) (Matcher.optional m') := by
  refine .bind .get fun s t h => ?_
  rw [h.size_failures]
  refine .bind hm fun o _ ho => ?_
  subst ho
  refine .bind (.modify fun _ _ hend => hend.cutBack _) fun _ _ _ => ?_
  cases o <;> exact couples_succeed _

/-- The loop stops after the same number of items on both sides. -/
theorem pairs_collect (count : Count) (hm : c.Couples m m') (budget : Nat) :
    ∀ items, c.Pairs Eq (Matcher.collect count m budget items)
      (Matcher.collect count m' budget items) := by
  induction budget with
  | zero => exact fun items => .throw _
  | succ budget ih =>
    intro items
    rw [Matcher.collect, Matcher.collect]
    split
    · exact .pure rfl
    · refine .bind .get fun s t h => ?_
      refine .bind hm fun o _ ho => ?_
      subst ho
      cases o with
      | failed => exact .pure rfl
      | matched stop v =>
        -- both runs stop where nothing was consumed, which is a comparison of two positions
        have hsame : stop + c.ahead = t.cursor ↔ stop = s.cursor := by
          rw [h.cursor]
          omega
        simp only [Outcome.shift, hsame]
        split
        · exact .pure rfl
        · exact ih (items.push v)

/-- A repetition has the same budget on both sides, since what is left of the texts is equally long.
-/
theorem couples_repeated (hc : c.Lawful env env') (label : String) (count : Count)
    (hm : c.Couples m m') :
    c.Couples (Matcher.repeated env label count m) (Matcher.repeated env' label count m') := by
  refine .bind .get fun s t h => ?_
  refine .bind .get fun s₁ t₁ h₁ => ?_
  -- the loop has as many rounds as there are characters left, and both runs have the same left
  have hleft : env'.length - t.cursor = env.length - s.cursor := by
    rw [hc.length, h.cursor]
    omega
  rw [h₁.size_failures, hleft]
  refine .bind (pairs_collect count hm _ #[]) fun items _ hitems => ?_
  subst hitems
  split
  · exact .bind (.modify fun _ _ hend => hend.cutBack _) fun _ _ _ => couples_succeed _
  · refine .bind (.modify fun _ _ hend => ?_) fun _ _ _ => couples_fail _
    rw [h.cursor]
    exact hend.moveTo hc s.cursor

theorem couples_lookahead (hc : c.Lawful env env') (label : String) (negated : Bool)
    (hm : c.Couples m m') : c.Couples (Matcher.lookahead env label negated m)
      (Matcher.lookahead env' label negated m') := by
  refine .bind .get fun s t h => ?_
  refine .bind .get fun s₁ t₁ h₁ => ?_
  rw [h₁.size_failures, h.cursor]
  refine .bind hm fun o _ ho => ?_
  subst ho
  refine .bind (.modify fun _ _ hend => hend.moveTo hc s.cursor) fun _ _ _ => ?_
  rw [Outcome.isMatched_shift]
  split
  · exact couples_fail _
  · exact .bind (.modify fun _ _ hend => hend.cutBack _) fun _ _ _ => .pure rfl

theorem pairs_runSteps {steps steps' : List (Step Matcher)}
    (hm : List.Forall₂ (fun step step' => step'.store = step.store ∧
      c.Couples step.body step'.body) steps steps') :
    c.Pairs Eq (Matcher.runSteps steps) (Matcher.runSteps steps') := by
  induction hm with
  | nil => exact .pure rfl
  | @cons step step' rest rest' hstep _ ih =>
    rw [Matcher.runSteps, Matcher.runSteps, hstep.1]
    refine .bind hstep.2 fun o _ ho => ?_
    subst ho
    cases o with
    | failed => exact .pure rfl
    | matched stop v =>
      refine .bind ih fun slots _ hslots => ?_
      subst hslots
      cases slots <;> exact .pure rfl

theorem couples_sequence (hc : c.Lawful env env') (label : String) {type : ValueType}
    {xs : List (Step Expr)} {build : Hook Slots (Except Fault Value)}
    (hx : c.admits (.sequenceAs label type xs build)) {steps steps' : List (Step Matcher)}
    (hm : List.Forall₂ (fun step step' => step'.store = step.store ∧
      c.Couples step.body step'.body) steps steps') :
    c.Couples (Matcher.sequence env label steps build)
      (Matcher.sequence env' label steps' build) := by
  refine .bind .get fun s t h => ?_
  refine .bind .get fun s₁ t₁ h₁ => ?_
  rw [h₁.size_failures, h.cursor]
  refine .bind (pairs_runSteps hm) fun slots _ hslots => ?_
  subst hslots
  cases slots with
  | none =>
    exact .bind (.modify fun _ _ hend => hend.moveTo hc s.cursor) fun _ _ _ => couples_fail _
  | some slots =>
    refine .bind (.modify fun _ _ hend => hend.cutBack _) fun _ _ _ => ?_
    refine .bind (pairs_call hc hx build rfl _ slots) fun result _ hresult => ?_
    subst hresult
    cases result with
    | ok v => exact couples_succeed v
    | error f => exact .throw _

theorem couples_firstOf (hc : c.Lawful env env') (start : Nat) {ms ms' : List Matcher}
    (hm : List.Forall₂ c.Couples ms ms') :
    c.Couples (Matcher.firstOf env start ms) (Matcher.firstOf env' (start + c.ahead) ms') := by
  induction hm with
  | nil => exact .pure rfl
  | cons hbody _ ih =>
    rw [Matcher.firstOf, Matcher.firstOf]
    refine .bind hbody fun o _ ho => ?_
    subst ho
    cases o with
    | matched stop v => exact .pure rfl
    | failed => exact .bind (.modify fun _ _ hend => hend.moveTo hc start) fun _ _ _ => ih

theorem couples_choice (hc : c.Lawful env env') (label : String) {ms ms' : List Matcher}
    (hm : List.Forall₂ c.Couples ms ms') :
    c.Couples (Matcher.choice env label ms) (Matcher.choice env' label ms') := by
  refine .bind .get fun s t h => ?_
  refine .bind .get fun s₁ t₁ h₁ => ?_
  rw [h₁.size_failures, h.cursor]
  refine .bind (couples_firstOf hc s.cursor hm) fun o _ ho => ?_
  subst ho
  cases o with
  | matched stop v => exact .bind (.modify fun _ _ hend => hend.cutBack _) fun _ _ _ => .pure rfl
  | failed => exact couples_fail _

theorem couples_map (hc : c.Lawful env env') {type : ValueType} {f : Hook Value Value} {x : Expr}
    (hx : c.admits (.map type f x)) (hm : c.Couples m m') :
    c.Couples (Matcher.map f m) (Matcher.map f m') := by
  refine .bind hm fun o _ ho => ?_
  subst ho
  cases o with
  | failed => exact .pure rfl
  | matched stop v =>
    refine .bind (pairs_call hc hx f rfl _ v) fun v' _ hv => ?_
    subst hv
    exact .pure rfl

/-! ### Rules -/

/-- Looking for a body changes nothing but the grammar and the events. -/
theorem state_body? (r : RuleId) (s : State) : ∃ g es, Result.state (Matcher.body? r s) =
    { s with grammar := g, events := es } := by
  rcases Matcher.body?_cases r s with ⟨-, hb⟩ | ⟨x, t, hb, ⟨-, hg⟩, -⟩ | ⟨f, t, hb, -, hg⟩
  · exact ⟨s.grammar, s.events, by rw [hb]; rfl⟩
  · rw [hb]
    exact hg
  · rw [hb]
    exact hg

/-- Both runs look for the body of a rule. -/
theorem pairs_body? (hc : c.Lawful env env') (r : RuleId) :
    c.Pairs c.Bodies (Matcher.body? r) (Matcher.body? r) := by
  intro s t h
  have hbody := hc.body r s t h.history
  obtain ⟨g, es, hs⟩ := state_body? r s
  obtain ⟨g', es', ht⟩ := state_body? r t
  generalize Matcher.body? r s = a at hbody hs
  generalize Matcher.body? r t = b at hbody ht
  cases hbody with
  | ok hxy hhist =>
    cases hs
    cases ht
    exact .ok hxy ⟨h.cursor, h.failures, h.memo, h.skipping, h.depth, h.overflowed, hhist⟩
  | error e hhist =>
    cases hs
    cases ht
    exact .error e ⟨h.cursor, h.failures, h.memo, h.skipping, h.depth, h.overflowed, hhist⟩

/-- Both runs leave the body of a rule. -/
theorem couples_leave (hc : c.Lawful env env') (r : RuleId) (start : Nat) {outer outer' : Bool}
    (houter : c.modes outer outer') (o : Outcome Value) :
    c.Couples
      (do
        modify fun s => { s with skipping := outer }
        match o with
        | .matched stop v => return .matched stop v
        | .failed =>
          modify (·.moveTo env start)
          Matcher.fail (.wrong r.label))
      (do
        modify fun s => { s with skipping := outer' }
        match o.shift c.ahead with
        | .matched stop v => return .matched stop v
        | .failed =>
          modify (·.moveTo env' (start + c.ahead))
          Matcher.fail (.wrong r.label)) := by
  refine .bind (.modify fun _ _ hend => hend.withSkipping houter) fun _ _ _ => ?_
  cases o with
  | matched stop v => exact .pure rfl
  | failed => exact .bind (.modify fun _ _ hend => hend.moveTo hc start) fun _ _ _ => couples_fail _

/-- Entering a rule sets modes that go together, and both sides find the same body. -/
theorem couples_enterBody (hc : c.Lawful env env') {eval eval' : Expr → Matcher}
    (heval : ∀ x, c.Admits x → c.Couples (eval x) (eval' x)) (r : RuleId) :
    c.Couples (Matcher.enterBody env eval r) (Matcher.enterBody env' eval' r) := by
  refine .bind .get fun s t h => ?_
  rw [h.cursor]
  refine .bind (A := c.modes) (.modifyGet fun s t h => ⟨h.skipping, ?_⟩) fun _ _ houter => ?_
  · exact (h.withSkipping (hc.mode _ _ _ _ r h.history)).skipBlanks hc
  refine .bind (pairs_body? hc r) fun _ x hx => ?_
  obtain ⟨rfl, hadmits⟩ := hx
  cases x with
  | none =>
    refine .bind (couples_fail _) fun o _ ho => ?_
    subst ho
    exact couples_leave hc r s.cursor houter o
  | some x =>
    refine .bind (heval x (hadmits x rfl)) fun o _ ho => ?_
    subst ho
    exact couples_leave hc r s.cursor houter o

/-- The frame of a rule: both sides open, refuse and leave it alike. -/
theorem couples_rule (hc : c.Lawful env env') (hm : c.Couples m m') (r : RuleId) :
    c.Couples (Matcher.rule env m r) (Matcher.rule env' m' r) := by
  refine .bind .get fun s t h => ?_
  refine .bind .get fun s₁ t₁ h₁ => ?_
  rw [h₁.known? hc, h.cursor]
  cases s₁.known? env (.rule r) with
  | some entry =>
    refine .bind (couples_replay entry) fun o _ ho => ?_
    subst ho
    refine .bind (.modify fun _ _ hend => ?_) fun _ _ _ => couples_skippingBlanks hc o
    cases o <;> exact hend.emit hc _ rfl
  | none =>
    refine .bind .get fun s₂ t₂ h₂ => ?_
    rw [h₂.atLimit hc]
    split
    · refine .bind (.modify fun _ _ hend => ?_) fun _ _ _ => couples_fail _
      exact hend.overflow.emit hc (.limitReached r s.cursor) rfl
    · refine .bind (.modify fun _ _ hend => ?_) fun _ _ _ => ?_
      · exact (hend.withDepth (congrArg (· + 1) hend.depth)).emit hc (.attempt r s.cursor) rfl
      refine .bind (couples_remembering hc (.rule r) hm) fun o _ ho => ?_
      subst ho
      refine .bind (.modify fun _ _ hend => ?_) fun _ _ _ => couples_skippingBlanks hc o
      have hleave := hend.withDepth (congrArg (· - 1) hend.depth)
      cases o <;> exact hleave.emit hc _ rfl

/-! ## Expressions -/

variable {call call' : RuleId → Matcher}

mutual

/-- An expression is coupled with itself if the rules in it are. -/
theorem couples_expr (hc : c.Lawful env env') (hcall : ∀ r, c.Couples (call r) (call' r))
    (x : Expr) (hx : c.Admits x) : c.Couples (x.matcher env call) (x.matcher env' call') := by
  cases x with
  | builtin cl => exact couples_builtin hc cl
  | char test => exact couples_char hc test (hx _ .here)
  | literal length test => exact couples_literal hc length test (hx _ .here)
  | empty => exact couples_succeed _
  | fail message => exact couples_fail _
  | position =>
    refine .bind .get fun s t h => ?_
    have hcursor : t.cursor = s.cursor := by rw [h.cursor, hc.position (hx _ .here), Nat.add_zero]
    rw [hcursor]
    exact couples_succeed _
  | rule r => exact hcall r
  | optionalAs label x =>
    exact couples_optional (couples_expr hc hcall x fun y hy => hx y (.optional label hy))
  | repeatedAs label x count =>
    exact couples_repeated hc label count
      (couples_expr hc hcall x fun y hy => hx y (.repeated label count hy))
  | lookaheadAs label negated x =>
    exact couples_lookahead hc label negated
      (couples_expr hc hcall x fun y hy => hx y (.lookahead label negated hy))
  | sequenceAs label type steps build =>
    refine couples_sequence hc label (hx _ .here) (couples_steps hc hcall steps ?_)
    exact fun step hmem y hy => hx y (.step label type build hmem hy)
  | choiceAs label xs =>
    refine couples_choice hc label (couples_alternatives hc hcall xs ?_)
    exact fun x hmem y hy => hx y (.alternative label hmem hy)
  | map type f x =>
    exact couples_map hc (hx _ .here) (couples_expr hc hcall x fun y hy => hx y (.map type f hy))

theorem couples_steps (hc : c.Lawful env env') (hcall : ∀ r, c.Couples (call r) (call' r))
    (steps : List (Step Expr)) (hx : ∀ step ∈ steps, c.Admits step.body) :
    List.Forall₂ (fun step step' => step'.store = step.store ∧ c.Couples step.body step'.body)
      (Expr.stepMatchers env call steps) (Expr.stepMatchers env' call' steps) := by
  cases steps with
  | nil => exact .nil
  | cons step rest =>
    obtain ⟨x, store⟩ := step
    rw [Expr.stepMatchers, Expr.stepMatchers]
    refine .cons ⟨rfl, couples_expr hc hcall x (hx _ List.mem_cons_self)⟩ ?_
    exact couples_steps hc hcall rest fun step hmem => hx step (List.mem_cons_of_mem _ hmem)

theorem couples_alternatives (hc : c.Lawful env env') (hcall : ∀ r, c.Couples (call r) (call' r))
    (xs : List Expr) (hx : ∀ x ∈ xs, c.Admits x) :
    List.Forall₂ c.Couples (Expr.matchers env call xs) (Expr.matchers env' call' xs) := by
  cases xs with
  | nil => exact .nil
  | cons x rest =>
    rw [Expr.matchers, Expr.matchers]
    refine .cons (couples_expr hc hcall x (hx _ List.mem_cons_self)) ?_
    exact couples_alternatives hc hcall rest fun x hmem => hx x (List.mem_cons_of_mem _ hmem)

end

/-- Rules are coupled with themselves, with any room. -/
theorem couples_callRule (hc : c.Lawful env env') (n : Nat) :
    ∀ r, c.Couples (callRule env n r) (callRule env' n r) := by
  induction n with
  | zero => exact fun r => couples_rule hc (.throw _) r
  | succ n ih => exact fun r => couples_rule hc (couples_enterBody hc (couples_expr hc ih) r) r

/-! ## Grammars with the same bodies -/

/-- Runs whose grammars have the same body for a rule find it, and build it if need be. -/
theorem related_body? {r : RuleId} (hbody : t.grammar.body r = s.grammar.body r)
    (hadmits : ∀ x u, Matcher.body? r s = .ok (some x) u → c.Admits x) (hkept : c.Histories s t)
    (hbuilt : ∀ build, s.grammar.body r = .delayed build →
      (Matcher.built t.grammar r build).1 = (Matcher.built s.grammar r build).1 ∧
        c.history (Matcher.built s.grammar r build).2
          (s.note build.journal (fun _ => "build") s.grammar.handles).events
          (Matcher.built t.grammar r build).2
          (t.note build.journal (fun _ => "build") t.grammar.handles).events) :
    Result.Related c.Bodies c.Histories (Matcher.body? r s) (Matcher.body? r t) := by
  cases hb : s.grammar.body r with
  | undefined =>
    rw [Matcher.run_body?_undefined hb, Matcher.run_body?_undefined (hbody.trans hb)]
    exact .ok ⟨rfl, nofun⟩ hkept
  | defined x =>
    rw [Matcher.run_body?_defined hb] at hadmits ⊢
    rw [Matcher.run_body?_defined (hbody.trans hb)]
    refine .ok ⟨rfl, ?_⟩ hkept
    rintro _ ⟨⟩
    exact hadmits x s rfl
  | delayed build =>
    obtain ⟨hresult, hend⟩ := hbuilt build hb
    rw [Matcher.run_body?_delayed hb] at hadmits ⊢
    rw [Matcher.run_body?_delayed (hbody.trans hb), hresult]
    cases hx : (Matcher.built s.grammar r build).1 with
    | error f => exact .error _ hend
    | ok x =>
      rw [hx] at hadmits
      refine .ok ⟨rfl, ?_⟩ hend
      rintro _ ⟨⟩
      exact hadmits x _ rfl

/-! ## Whole texts -/

/-- Grammars that go together leave both runs the same room. -/
def Level (c : Coupling) (env env' : Env) : Prop :=
  c.ahead = 0 ∧ ∀ g es g' es', c.history g es g' es' → headroom env' g' = headroom env g

/-- Where no run is ahead, the room is the same too, so whole evaluations of a rule are coupled. -/
theorem couples_evaluate_rule (hc : c.Lawful env env') (hlevel : c.Level env env') (r : RuleId) :
    c.Couples ((Expr.rule r).evaluate env) ((Expr.rule r).evaluate env') := by
  refine .bind .get fun s t h => ?_
  rw [hlevel.2 _ _ _ _ h.history]
  exact couples_callRule hc _ r

/-- Where no run is ahead, the failures that are reported are the same. -/
theorem pairs_rejection (h0 : c.ahead = 0) :
    c.Pairs Eq (do return .error ⟨(← get).failures.toList⟩ : ParseM (Except Rejection Value))
      (do return .error ⟨(← get).failures.toList⟩) := by
  refine .bind .get fun s t h => .pure ?_
  rw [h.failures, h0, Failure.shift_zero, Array.map_id]

/-- Where no run is ahead, whole parses come to the same answer. -/
theorem pairs_parseText (hc : c.Lawful env env') (hlevel : c.Level env env') (r : RuleId) :
    c.Pairs Eq (parseText env r) (parseText env' r) := by
  have h0 := hlevel.1
  have hlength : env'.length = env.length := by rw [hc.length, h0, Nat.add_zero]
  have hcursor : ∀ {s t}, c.States s t → t.cursor = s.cursor := by
    intro s t h
    rw [h.cursor, h0, Nat.add_zero]
  have hemit : ∀ {s t} (e : Event), c.States s t → e.isCall = false →
      c.States (s.emit e) (t.emit e) := by
    intro s t e h he
    have hmoved := h.emit hc e he
    rwa [h0, Event.shift_zero] at hmoved
  refine .bind (couples_evaluate_rule hc hlevel r) fun o o' ho => ?_
  have hsame : o' = o := by rw [ho, h0, Outcome.shift_zero]
  subst hsame
  cases o' with
  | matched stop v =>
    refine .bind .get fun s t h => ?_
    have hend : t.atEnd env' = s.atEnd env := by rw [State.atEnd, State.atEnd, hcursor h, hlength]
    rw [hend, hlength]
    split
    · exact .bind (.modify fun _ _ hst => hemit _ hst rfl) fun _ _ _ => .pure rfl
    · refine .bind (.modify fun _ _ hst => ?_) fun _ _ _ => pairs_rejection h0
      rw [hcursor hst]
      exact hemit _ (hst.record .tooLong) rfl
  | failed =>
    refine .bind (.modify fun _ _ hst => ?_) fun _ _ _ => pairs_rejection h0
    rw [hst.size_failures]
    exact hemit _ hst rfl

theorem states_start (hc : c.Lawful env env') (hmodes : c.modes false false)
    {g g' : Grammar} (hstart : c.history g #[] g' #[]) (h0 : c.ahead = 0) :
    c.States (.start env g) (.start env' g') where
  cursor := by rw [h0]; rfl
  failures := Array.map_empty.symm
  memo := by
    change Memo.empty env'.length = (Memo.empty env.length).shift c.ahead
    rw [Memo.shift_empty, hc.length]
  skipping := hmodes
  depth := rfl
  overflowed := rfl
  history := hstart

/-- Grammars that go together give a text the same answer, and still go together afterwards. -/
theorem parse_answer_eq {text : String} {config config' : Config} {g g' : Grammar}
    (hc : c.Lawful (.ofText text config) (.ofText text config'))
    (hlevel : c.Level (.ofText text config) (.ofText text config'))
    (hmodes : c.modes false false) (hstart : c.history g #[] g' #[]) (r : RuleId) :
    (g'.parse r config' text).answer = (g.parse r config text).answer ∧
      c.history (g.parse r config text).grammar (g.parse r config text).events.toArray
        (g'.parse r config' text).grammar (g'.parse r config' text).events.toArray := by
  have hrun := pairs_parseText hc hlevel r _ _ (states_start hc hmodes hstart hlevel.1)
  unfold Grammar.parse
  dsimp only
  generalize parseText (.ofText text config) r (.start (.ofText text config) g) = a at hrun ⊢
  generalize parseText (.ofText text config') r (.start (.ofText text config') g') = b at hrun ⊢
  cases hrun with
  | ok hab hst => exact ⟨congrArg Except.ok hab.symm, hst.history⟩
  | error e hst => exact ⟨rfl, hst.history⟩

end Coupling

end

end Packrat
