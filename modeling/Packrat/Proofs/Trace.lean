import Packrat.Proofs.Scope
import Packrat.Proofs.Work

/-!
# What the trace of a session tells

The events of a session bracket its evaluations: every attempt of a rule is ended once, by an event
of the same rule and position, and what happens in between is bracketed in the same way
(`Event.Nested`). An answer that is worked out adds one such bracket, every other answer an event
that is none, so completed evaluations add well-nested lists of events
(`answer_narrates_of_produce`, `Expr.evaluate_narrates`).

An entry for a rule is made when the attempt is about to end, so each entry has its bracket in the
events (`Vouched`), and the use of an entry refers to a bracket that is closed. That a refusal
happens at the limit does not depend on brackets: it holds across every elementary change of a run.
-/

namespace Packrat

namespace Event

/-! ## Brackets -/

/-- The event ends the attempt of a rule at a position. -/
inductive Ends (r : RuleId) (p : Nat) : Event → Prop where
  | matched (stop : Nat) : Ends r p (.matched r p stop)
  | failed : Ends r p (.failed r p)

/-- The event neither begins nor ends an attempt. -/
def isAside : Event → Bool
  | .attempt _ _ | .matched _ _ _ | .failed _ _ => false
  | _ => true

/-- A list of events in which each attempt is ended by one event of the same rule and position, with
a list of the same kind in between. -/
inductive Nested : List Event → Prop where
  | nil : Nested []
  | aside {e : Event} {rest : List Event} (he : e.isAside = true) (hrest : Nested rest) :
      Nested (e :: rest)
  | bracket {r : RuleId} {p : Nat} {e : Event} {inner rest : List Event} (hinner : Nested inner)
      (he : e.Ends r p) (hrest : Nested rest) : Nested (.attempt r p :: inner ++ e :: rest)

/-- The list holds an attempt of a rule at a position that was ended by the event `e`. -/
def Concluded (events : List Event) (r : RuleId) (p : Nat) (e : Event) : Prop :=
  ∃ before inner after, events = before ++ .attempt r p :: inner ++ e :: after ∧ Nested inner

/-- Every event of the list stands in the given relation to the events before it. -/
def Throughout (P : List Event → Event → Prop) (events : List Event) : Prop :=
  ∀ before e after, events = before ++ e :: after → P before e

/-- If the event is about the use of an entry, then an attempt of that rule at that position was
ended before in the same way. -/
def Justified (before : List Event) : Event → Prop
  | .cachedMatch r p => ∃ stop, Concluded before r p (.matched r p stop)
  | .cachedFail r p => Concluded before r p (.failed r p)
  | _ => True

/-- If the event is a refusal, then as many rules are open as the limit allows. -/
def AtLimit (limit : Option Nat) (before : List Event) : Event → Prop
  | .limitReached _ _ => limit = some (openRules before)
  | _ => True

section

variable {es es' : List Event} {e : Event} {P : List Event → Event → Prop}

theorem Nested.append (h : Nested es) (h' : Nested es') : Nested (es ++ es') := by
  induction h with
  | nil => exact h'
  | aside he _ ih => exact ih.aside he
  | bracket hinner he _ _ ih =>
    rw [List.append_assoc, List.cons_append]
    exact hinner.bracket he ih

theorem Nested.of_asides (h : ∀ e ∈ es, e.isAside = true) : Nested es := by
  induction es with
  | nil => exact .nil
  | cons e es ih =>
    refine .aside (h e List.mem_cons_self) (ih fun e' he' => ?_)
    exact h e' (List.mem_cons_of_mem e he')

/-- A bracket that is closed stays closed. -/
theorem Concluded.append {r : RuleId} {p : Nat} (h : Concluded es r p e) (es' : List Event) :
    Concluded (es ++ es') r p e := by
  obtain ⟨before, inner, after, rfl, hinner⟩ := h
  exact ⟨before, inner, after ++ es', by simp, hinner⟩

/-- A second list holds its own against all that came before. -/
theorem Throughout.append (h : Throughout P es)
    (h' : Throughout (fun before e => P (es ++ before) e) es') : Throughout P (es ++ es') := by
  intro before e after heq
  rcases List.append_eq_append_iff.mp heq with ⟨middle, rfl, hrest⟩ | ⟨middle, rfl, hrest⟩
  · exact h' middle e after hrest
  · cases middle with
    | nil =>
      have hnow := h' [] e after hrest.symm
      rwa [List.append_nil, List.append_nil] at hnow
    | cons e' middle =>
      obtain ⟨rfl, -⟩ := List.cons.inj hrest
      exact h before e middle rfl

theorem throughout_nil : Throughout P [] := by
  intro before e after heq
  simp at heq

theorem throughout_singleton (h : P [] e) : Throughout P [e] := by
  intro before e' after heq
  cases before with
  | nil =>
    obtain ⟨rfl, -⟩ := List.cons.inj heq
    exact h
  | cons e'' before => simp at heq

/-- No rules are open beyond the depth that is ever reached. -/
theorem openRules_le_deepest_of_prefix (h : es <+: es') : openRules es ≤ deepest es' := by
  obtain ⟨after, rfl⟩ := h
  induction after using List.reverseRecOn with
  | nil =>
    rw [List.append_nil]
    exact openRules_le_deepest es
  | append_singleton after e ih =>
    rw [← List.append_assoc, deepest_append]
    exact Nat.le_trans ih (Nat.le_max_left _ _)

end

end Event

/-! ## Evaluations -/

/-- The event by which an attempt was ended that came to the entry. -/
def Entry.conclusion (r : RuleId) (p : Nat) : Entry → Event
  | .success stop _ => .matched r p stop
  | .failure _ => .failed r p

/-- The events bear out what can be recalled of rules, and what was recalled. -/
structure Vouched (env : Env) (s : State) : Prop where
  recalled : ∀ r p entry, s.Recalls env p (.rule r) entry →
    Event.Concluded s.events.toList r p (entry.conclusion r p)
  justified : Event.Throughout Event.Justified s.events.toList

/-- From `s` to `t` a well-nested list of events was added, which bears out what was recalled. -/
structure Narrates (env : Env) (s t : State) : Prop where
  events : ∃ es, t.events.toList = s.events.toList ++ es ∧ Event.Nested es
  vouched : Vouched env s → Vouched env t

section

variable {env : Env} {n : Nat} {key : Key} {s t u : State} {o : Outcome Value}

/-- The events bear out a memo that gained only entries with brackets. -/
theorem Vouched.append (hs : Vouched env s) {es : List Event}
    (he : t.events.toList = s.events.toList ++ es)
    (hm : ∀ r p entry, t.Recalls env p (.rule r) entry → s.Recalls env p (.rule r) entry ∨
      Event.Concluded t.events.toList r p (entry.conclusion r p))
    (hes : Event.Throughout (fun before e => e.Justified (s.events.toList ++ before)) es) :
    Vouched env t where
  recalled r p entry hr := by
    rcases hm r p entry hr with hr | hend
    · rw [he]
      exact (hs.recalled r p entry hr).append es
    · exact hend
  justified := by
    rw [he]
    exact hs.justified.append hes

namespace Narrates

theorem trans (h : Narrates env s t) (h' : Narrates env t u) : Narrates env s u where
  events := by
    obtain ⟨es, he, hn⟩ := h.events
    obtain ⟨es', he', hn'⟩ := h'.events
    exact ⟨es ++ es', by rw [he', he, List.append_assoc], hn.append hn'⟩
  vouched hs := h'.vouched (h.vouched hs)

/-- Calls that are noted tell nothing about rules. -/
theorem of_calls (hm : t.memo = s.memo) {calls : List (String × String)}
    (he : t.events = s.events ++ calls.toArray.map fun c => .called c.1 c.2) :
    Narrates env s t := by
  have hlist : t.events.toList = s.events.toList ++ calls.map fun c => .called c.1 c.2 := by
    rw [he]
    simp
  have hcall : ∀ e ∈ calls.map (fun c => Event.called c.1 c.2), ∃ j a, e = .called j a := by
    intro e hmem
    obtain ⟨c, -, rfl⟩ := List.mem_map.mp hmem
    exact ⟨c.1, c.2, rfl⟩
  constructor
  · refine ⟨_, hlist, .of_asides fun e hmem => ?_⟩
    obtain ⟨j, a, rfl⟩ := hcall e hmem
    rfl
  · intro hs
    refine hs.append hlist (fun r p entry hr => Or.inl (hr.congr hm)) ?_
    intro before e after heq
    obtain ⟨j, a, rfl⟩ := hcall e (by simp [heq])
    trivial

theorem of_same (hm : t.memo = s.memo) (he : t.events = s.events) : Narrates env s t := by
  have hnone : t.events = s.events ++
      ([] : List (String × String)).toArray.map fun c => Event.called c.1 c.2 := by simp [he]
  exact of_calls hm hnone

theorem of_works (h : s.Works env t) : Narrates env s t := by
  obtain ⟨calls, he⟩ := h.events
  exact of_calls h.memo he

/-- An event outside of brackets. -/
theorem emit {e : Event} (hm : t.memo = s.memo) (he : t.events = s.events.push e)
    (haside : e.isAside = true) (hj : Vouched env s → e.Justified s.events.toList) :
    Narrates env s t := by
  have hlist : t.events.toList = s.events.toList ++ [e] := by rw [he, Array.toList_push]
  constructor
  · exact ⟨[e], hlist, .aside haside .nil⟩
  · intro hs
    refine hs.append hlist (fun r p entry hr => Or.inl (hr.congr hm)) ?_
    apply Event.throughout_singleton
    rw [List.append_nil]
    exact hj hs

theorem entering (s : State) (r : RuleId) : Narrates env s (s.entering env r) := by
  have hw : State.Works env { s with skipping := s.grammar.skipsBlanks r } (s.entering env r) :=
    .skipBlanks env _
  obtain ⟨calls, he⟩ := hw.events
  exact of_calls hw.memo he

theorem body? {r : RuleId} {x : Option Expr} (h : Matcher.body? r s = .ok x t) :
    Narrates env s t := by
  cases hb : s.grammar.body r with
  | undefined =>
    rw [Matcher.run_body?_undefined hb] at h
    cases h
    exact .of_same rfl rfl
  | defined y =>
    rw [Matcher.run_body?_defined hb] at h
    cases h
    exact .of_same rfl rfl
  | delayed b =>
    have hn := State.Works.note env s b.journal (fun _ => "build") s.grammar.handles
    obtain ⟨calls, he⟩ := hn.events
    rw [Matcher.run_body?_delayed hb] at h
    cases hr : (Matcher.built s.grammar r b).1 with
    | error f => rw [hr] at h; cases h
    | ok y =>
      rw [hr] at h
      cases h
      exact .of_calls hn.memo he

/-- What is remembered of a character class is not about rules. -/
theorem settle (s : State) (c : CharClass) (p : Nat) (outer : Array Failure) (o : Outcome Value) :
    Narrates env s (s.settle env (.builtin c) p outer o) := by
  have he : (s.settle env (.builtin c) p outer o).events = s.events := by rw [State.settle_eq]
  have hlist : (s.settle env (.builtin c) p outer o).events.toList = s.events.toList ++ [] := by
    rw [he, List.append_nil]
  constructor
  · exact ⟨[], hlist, .nil⟩
  · intro hs
    refine hs.append hlist (fun r q entry hr => ?_) Event.throughout_nil
    rcases hr.of_settle with ⟨-, -, hkey, -⟩ | hr
    · cases hkey
    · exact Or.inl hr

/-- An attempt that has come to its end is a bracket, and what is remembered of it is how it was
ended. -/
theorem bracket {r : RuleId} (h : Narrates env (s.opened (.rule r)) u) (o : Outcome Value) :
    Narrates env s
      ((u.settle env (.rule r) s.cursor s.failures o).closed s.cursor o (.rule r)) := by
  obtain ⟨es, he, hn⟩ := h.events
  let e := (Entry.ofOutcome u.failures o).conclusion r s.cursor
  have hopen : (s.opened (.rule r)).events.toList = s.events.toList ++ [.attempt r s.cursor] :=
    Array.toList_push
  have hclose : ((u.settle env (.rule r) s.cursor s.failures o).closed s.cursor o
      (.rule r)).events.toList = u.events.toList ++ [e] := by
    rw [State.settle_eq]
    cases o <;> exact Array.toList_push
  have hends : e.Ends r s.cursor := by
    cases o with
    | matched stop v => exact .matched stop
    | failed => exact .failed
  have hall : ((u.settle env (.rule r) s.cursor s.failures o).closed s.cursor o
      (.rule r)).events.toList = s.events.toList ++ .attempt r s.cursor :: es ++ [e] := by
    rw [hclose, he, hopen]
    simp
  constructor
  · exact ⟨.attempt r s.cursor :: es ++ [e], by rw [hall]; simp, hn.bracket hends .nil⟩
  · intro hs
    have hbegun : Vouched env (s.opened (.rule r)) :=
      hs.append hopen (fun _ _ _ hr => Or.inl hr) (Event.throughout_singleton trivial)
    refine (h.vouched hbegun).append hclose (fun r' p entry hr => ?_) ?_
    · obtain ⟨d, evs, hrest⟩ := State.closed_eq (u.settle env (.rule r) s.cursor s.failures o)
        s.cursor o (.rule r)
      rw [hrest] at hr
      -- the entry that was made is borne out by this bracket, the others were before
      rcases State.Recalls.of_settle hr with ⟨-, rfl, hkey, rfl⟩ | hr
      · cases hkey
        exact Or.inr ⟨s.events.toList, es, [], hall, hn⟩
      · exact Or.inl hr
    · apply Event.throughout_singleton
      cases o <;> trivial

end Narrates

/-- A dialogue adds well-nested events if the answers to its questions do. -/
theorem Linked.narrates {α : Type} {f : Key → Matcher}
    (hf : ∀ key s o t, f key s = .ok o t → Narrates env s t) {d d' : Dialogue α}
    (h : Linked env env #[] #[] s t d d') {a : α} (hr : d.run f = .ok a u) : Narrates env s u := by
  induction h with
  | done hu hw huw a => cases hr; exact .of_works hu
  | halt hu hw huw e => cases hr
  | @ask s t v w hv hw hvw key next next' hnext ih =>
    rw [Dialogue.run_ask] at hr
    cases ha : f key v with
    | error e v' => rw [ha] at hr; cases hr
    | ok o v' =>
      rw [ha] at hr
      exact (Narrates.of_works hv).trans ((hf key v o v' ha).trans (ih o v' v' (.refl v') hr))

/-- A recalled outcome refers to the bracket of its entry. -/
theorem narrates_known {entry : Entry} (hk : s.known? env key = some entry)
    (h : answer env n key s = .ok o t) : Narrates env s t := by
  have hrec := State.known?_eq_some.mp hk
  rw [answer_known hk] at h
  cases key with
  | builtin c =>
    cases entry with
    | success stop v =>
      have hmove : Narrates env s { s with cursor := stop } := .of_same rfl rfl
      exact hmove.trans (.of_works (.of_skippingBlanks h))
    | failure fs =>
      have hadd : Narrates env s { s with failures := s.failures ++ fs } := .of_same rfl rfl
      exact hadd.trans (.of_works (.of_skippingBlanks h))
  | rule r =>
    cases entry with
    | success stop v =>
      refine Narrates.trans ?_ (.of_works (.of_skippingBlanks h))
      refine .emit (e := .cachedMatch r s.cursor) rfl rfl rfl fun hs => ?_
      exact ⟨stop, hs.recalled r s.cursor _ hrec⟩
    | failure fs =>
      refine Narrates.trans ?_ (.of_works (.of_skippingBlanks h))
      refine .emit (e := .cachedFail r s.cursor) rfl rfl rfl fun hs => ?_
      exact hs.recalled r s.cursor _ hrec

/-- What is worked out is put in one bracket, and the entry is made as the bracket closes. -/
theorem answer_narrates_of_produce
    (hp : ∀ s o t, produce env n key s = .ok o t → Narrates env s t)
    (h : answer env n key s = .ok o t) : Narrates env s t := by
  rcases answer_cases env key s with ⟨entry, hk⟩ | ⟨r, rfl, hk, hl⟩ | ⟨hk, hl⟩
  · exact narrates_known hk h
  · rw [answer_refused hk hl] at h
    cases h
    exact .emit (e := .limitReached r s.cursor) rfl rfl rfl fun _ => trivial
  · obtain ⟨o', u, hr, hend⟩ := answer_worked hk hl h
    have hwork := hp _ _ _ hr
    cases key with
    | builtin c =>
      have hopen : Narrates env s (s.opened (.builtin c)) := .of_same rfl rfl
      exact (hopen.trans hwork).trans
        ((Narrates.settle u c _ _ o').trans (.of_works (.of_skippingBlanks hend)))
    | rule r => exact (hwork.bracket o').trans (.of_works (.of_skippingBlanks hend))

/-- The work behind a key adds well-nested events, with any room. -/
theorem produce_narrates (env : Env) (n : Nat) (key : Key) (s : State) (o : Outcome Value)
    (t : State) (h : produce env n key s = .ok o t) : Narrates env s t := by
  induction n generalizing key s o t with
  | zero =>
    cases key with
    | rule r => cases h
    | builtin c =>
      obtain ⟨o', u, hu, hw⟩ := exists_produce_builtin env 0 c s
      rw [hu] at h
      cases h
      exact .of_works hw
  | succ n ih =>
    cases key with
    | builtin c => exact ih (.builtin c) s o t (by rw [produce_builtin] at h ⊢; exact h)
    | rule r =>
      have hleave : ∀ o u, Narrates env u (s.leaving env r o u) := by
        intro o u
        cases o <;> exact .of_same rfl rfl
      have henter : Narrates env s (s.entering env r) := .entering s r
      obtain ⟨k, ⟨⟩, ⟨-, -, -, rfl⟩ | ⟨x, u, w, hb, -, -, hr, rfl⟩⟩ := produce_rule_cases h
      · exact henter.trans ((Narrates.of_works (.record env _ _)).trans (hleave _ _))
      · have hrun := (x.linked_self env u).narrates
          (fun key s o t => answer_narrates_of_produce (ih key)) hr
        exact henter.trans ((Narrates.body? hb).trans (hrun.trans (hleave o w)))

/-- A completed evaluation adds a well-nested list of events. -/
theorem Expr.evaluate_narrates (x : Expr) (h : x.evaluate env s = .ok o t) : Narrates env s t := by
  rw [Expr.evaluate_eq_run] at h
  exact (x.linked_self env s).narrates
    (fun key s o t => answer_narrates_of_produce (produce_narrates env _ key)) h

/-! ## Refusals -/

theorem throughout_emit {P : List Event → Event → Prop} {e : Event}
    (hs : Event.Throughout P s.events.toList) (he : t.events = s.events.push e)
    (hnow : P s.events.toList e) : Event.Throughout P t.events.toList := by
  rw [he, Array.toList_push]
  refine hs.append (Event.throughout_singleton ?_)
  rw [List.append_nil]
  exact hnow

/-- A rule is refused where the events tell that as many rules are open as the limit allows. -/
theorem Logged.limit_eq (h : Logged env s) (hl : s.atLimit env = true) :
    env.limit = some (Event.openRules s.events.toList) := by
  unfold State.atLimit at hl
  cases hlim : env.limit with
  | none => simp [hlim] at hl
  | some limit =>
    simp only [hlim, decide_eq_true_eq] at hl
    have hle := h.depth_le hlim
    rw [← h.depth]
    congr 1
    omega

/-- Among the elementary changes only a refusal has to be at the limit, and it is. -/
theorem Move.atLimit (h : Move env s t) (hlog : Logged env s)
    (hs : Event.Throughout (Event.AtLimit env.limit) s.events.toList) :
    Event.Throughout (Event.AtLimit env.limit) t.events.toList := by
  cases h with
  | work | switch | build | remember => exact hs
  | call journal argument => exact throughout_emit hs rfl trivial
  | reuse r p o =>
    refine throughout_emit hs rfl ?_
    split <;> trivial
  | refuse r hl => exact throughout_emit hs rfl (hlog.limit_eq hl)
  | enter r hl => exact throughout_emit hs rfl trivial
  | leave r p o => cases o <;> exact throughout_emit hs rfl trivial

theorem Moves.atLimit (h : Moves env s t) (hlog : Logged env s)
    (hs : Event.Throughout (Event.AtLimit env.limit) s.events.toList) :
    Event.Throughout (Event.AtLimit env.limit) t.events.toList := by
  induction h with
  | refl => exact hs
  | tail hmoves hmove ih => exact hmove.atLimit (Moves.logged hmoves hlog) ih

/-! ## Sessions -/

/-- The events of a state are right about all that they report. -/
structure Truthful (env : Env) (s : State) : Prop extends Logged env s, Vouched env s where
  nested : Event.Nested s.events.toList
  atLimit : Event.Throughout (Event.AtLimit env.limit) s.events.toList

theorem truthful_start (env : Env) (g : Grammar) : Truthful env (.start env g) where
  toLogged := logged_start env g
  recalled r p entry hr := absurd hr (not_recalls_start env g p (.rule r) entry)
  justified := Event.throughout_nil
  nested := .nil
  atLimit := Event.throughout_nil

/-- A step other than an evaluation leaves the events and what is remembered alone. -/
theorem Command.events_eq (env : Env) (c : Command RuleId Expr) (s : State) :
    (∃ x, c = .evaluate x) ∨ ((Result.state (c.run env s)).events = s.events ∧
      (Result.state (c.run env s)).memo = s.memo) := by
  cases c with
  | evaluate x => exact Or.inl ⟨x, rfl⟩
  | define r x =>
    right
    rw [Command.run_define]
    cases s.grammar.define r x <;> exact ⟨rfl, rfl⟩
  | skipBlanks =>
    right
    change (s.skipBlanks env).events = s.events ∧ (s.skipBlanks env).memo = s.memo
    unfold State.skipBlanks
    split <;> exact ⟨rfl, rfl⟩
  | _ => exact Or.inr ⟨rfl, rfl⟩

/-- A step that is completed leaves the events truthful. -/
theorem Command.truthful (c : Command RuleId Expr) {reply : Reply}
    (h : c.run env s = .ok reply t) (hs : Truthful env s) : Truthful env t := by
  have hlog := c.logged hs.toLogged
  rw [h] at hlog
  rcases c.events_eq env s with ⟨x, rfl⟩ | ⟨he, hm⟩
  · rw [Command.run_evaluate] at h
    cases hr : x.evaluate env s with
    | error e u => rw [hr] at h; cases h
    | ok o u =>
      rw [hr] at h
      cases h
      have hnarrates := x.evaluate_narrates hr
      have hmoves := Expr.evaluate_moves env x s
      obtain ⟨es, he, hn⟩ := hnarrates.events
      rw [hr] at hmoves
      refine ⟨hlog, hnarrates.vouched hs.toVouched, ?_, hmoves.atLimit hs.toLogged hs.atLimit⟩
      rw [he]
      exact hs.nested.append hn
  · rw [h] at he hm
    have hsame : Narrates env s t := .of_same hm he
    rw [Result.state_ok] at he
    exact ⟨hlog, hsame.vouched hs.toVouched, by rw [he]; exact hs.nested,
      by rw [he]; exact hs.atLimit⟩

/-- So do the steps of a session, if all of them are completed. -/
theorem Session.truthful_after {cs : List (Command RuleId Expr)} (hs : Truthful env s)
    (hcs : Session.completes ⟨env, s⟩ cs = true) :
    Truthful env (Session.after ⟨env, s⟩ cs).state := by
  induction cs generalizing s with
  | nil => exact hs
  | cons c cs ih =>
    rw [Session.completes, Bool.and_eq_true] at hcs
    obtain ⟨hok, hrest⟩ := hcs
    change Truthful env (Session.after ((Session.mk env s).step c).2 cs).state
    rw [Session.step_eq] at hrest ⊢
    dsimp only at hrest ⊢
    refine ih ?_ hrest
    cases hr : c.run env s with
    | error e t => simp [Session.step, hr, Except.isOk, Except.toBool] at hok
    | ok reply t => exact c.truthful hr hs

end

/-- In a session whose steps are completed, the events are well nested: every attempt of a rule at a
position is ended by one event of that rule and position. Where an entry is used, an attempt of the
same rule at the same position was ended before with the same verdict. At no time are more attempts
open than the limit allows, and a rule is refused only where there are just as many. -/
theorem Session.trace_bracketed (text : String) (config : Config) (g : Grammar)
    (cs : List (Command RuleId Expr)) (hcs : (Session.start text config g).completes cs = true) :
    let events := ((Session.start text config g).after cs).state.events.toList
    Event.Nested events ∧
    (∀ before r p after, events = before ++ .cachedMatch r p :: after →
      ∃ stop, Event.Concluded before r p (.matched r p stop)) ∧
    (∀ before r p after, events = before ++ .cachedFail r p :: after →
      Event.Concluded before r p (.failed r p)) ∧
    (∀ limit, config.limit = some limit →
      ∀ before, before <+: events → Event.openRules before ≤ limit) ∧
    ∀ before r p after, events = before ++ .limitReached r p :: after →
      config.limit = some (Event.openRules before) := by
  intro events
  have h : Truthful (.ofText text config) ((Session.start text config g).after cs).state :=
    Session.truthful_after (truthful_start (.ofText text config) g) hcs
  refine ⟨h.nested, ?_, ?_, ?_, ?_⟩
  · intro before r p after heq
    exact h.justified before (.cachedMatch r p) after heq
  · intro before r p after heq
    exact h.justified before (.cachedFail r p) after heq
  · intro limit hlim before hbefore
    exact Nat.le_trans (Event.openRules_le_deepest_of_prefix hbefore) (h.bounded limit hlim)
  · intro before r p after heq
    exact h.atLimit before (.limitReached r p) after heq

/-- A rule that begins with itself, after a digit was read: two attempts are open when it is
refused, and the digit that is used there was matched before. -/
theorem Session.trace_bracketed_digits :
    let digit : RuleId := ⟨0, "digit"⟩
    let loop : RuleId := ⟨1, "loop"⟩
    let cs := [.evaluate (.rule digit), .moveTo 0, .evaluate (.rule loop)]
    let events := [.attempt digit 0, .matched digit 0 1, .attempt loop 0, .attempt loop 0,
      .limitReached loop 0, .cachedMatch digit 0, .matched loop 0 1, .matched loop 0 1]
    ((Session.start "7" { limit := some 2 } .digits).after cs).state.events.toList = events ∧
      Event.Nested events ∧
      ∃ stop, Event.Concluded (events.take 5) digit 0 (.matched digit 0 stop) := by
  intro digit loop cs events
  have hevents : ((Session.start "7" { limit := some 2 } .digits).after cs).state.events.toList =
      events := by decide +kernel
  obtain ⟨hnested, hmatch, -⟩ :=
    Session.trace_bracketed "7" { limit := some 2 } .digits cs (by decide +kernel)
  rw [hevents] at hnested hmatch
  exact ⟨hevents, hnested, hmatch (events.take 5) digit 0 _ rfl⟩

end Packrat
