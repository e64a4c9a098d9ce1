import Mathlib.Logic.Relation
import Packrat.Proofs.Room

/-!
# The moves of a run

All that a run does to its state, one elementary change at a time: `Move` has one constructor for
each. From a question to its answer there are such moves only (`answer_moves`), and from the start
of a dialogue to its end and to its questions. A statement about how a run changes its state is then
a check of the constructors.

The second half is about rules that have come to their end: they leave the mode and the number of
open rules as they found them (`answer_restores`).
-/

namespace Packrat

/-- An elementary change of the state of a run. -/
inductive Move (env : Env) : State → State → Prop where
  | work (s : State) (cursor : Nat) (failures : Array Failure) :
      Move env s { s with cursor, failures }
  | switch (s : State) (on : Bool) : Move env s { s with skipping := on }
  | call (s : State) (journal argument : String) : Move env s (s.emit (.called journal argument))
  | reuse (s : State) (r : RuleId) (p : Nat) (o : Outcome Value) :
      Move env s (s.recalled p o (.rule r))
  | refuse (s : State) (r : RuleId) (h : s.atLimit env = true) :
      Move env s ({ s with overflowed := true }.emit (.limitReached r s.cursor))
  | enter (s : State) (r : RuleId) (h : s.atLimit env = false) :
      Move env s ({ s with depth := s.depth + 1 }.emit (.attempt r s.cursor))
  | leave (s : State) (r : RuleId) (p : Nat) (o : Outcome Value) :
      Move env s (s.closed p o (.rule r))
  | build (s : State) (r : RuleId) (b : Hook Handles (Except Fault Expr × Handles))
      (h : s.grammar.body r = .delayed b) :
      Move env s { s with grammar := (Matcher.built s.grammar r b).2 }
  | remember (s : State) (p : Nat) (key : Key) (entry : Entry) :
      Move env s { s with memo := s.memo.insert p key entry }

/-- Any number of elementary changes. -/
def Moves (env : Env) : State → State → Prop := Relation.ReflTransGen (Move env)

section

variable {env : Env} {n : Nat} {key : Key} {s t u : State}

/-! ## Single actions -/

namespace Moves

theorem refl (env : Env) (s : State) : Moves env s s := Relation.ReflTransGen.refl

theorem single (h : Move env s t) : Moves env s t := Relation.ReflTransGen.single h

theorem trans (h : Moves env s t) (h' : Moves env t u) : Moves env s u :=
  Relation.ReflTransGen.trans h h'

/-- What holds across every elementary change holds across any number of them. -/
theorem lift {R : State → State → Prop} (hrefl : ∀ s, R s s)
    (htrans : ∀ {s t u}, R s t → R t u → R s u) (hmove : ∀ {s t}, Move env s t → R s t)
    (h : Moves env s t) : R s t := by
  induction h with
  | refl => exact hrefl s
  | tail _ hm ih => exact htrans ih (hmove hm)

/-- Calls that are noted one after the other are moves. -/
theorem calls (s : State) (calls : List (String × String)) :
    Moves env s { s with events := s.events ++ calls.toArray.map fun c => .called c.1 c.2 } := by
  induction calls generalizing s with
  | nil => simpa using refl env s
  | cons c rest ih =>
    have h := ih (s.emit (.called c.1 c.2))
    have he : (s.emit (.called c.1 c.2)).events ++
        rest.toArray.map (fun c => Event.called c.1 c.2) =
        s.events ++ (c :: rest).toArray.map fun c => .called c.1 c.2 := by
      simp [State.emit]
    rw [he] at h
    exact (single (.call s c.1 c.2)).trans h

/-- What an expression does by itself comes about by moves. -/
theorem of_works {env' : Env} (h : s.Works env' t) : Moves env s t := by
  obtain ⟨hg, hm, hk, hd, ho, -, -, cs, he⟩ := h
  have hwork : Move env s { s with cursor := t.cursor, failures := t.failures } := .work s _ _
  have hcalls : Moves env { s with cursor := t.cursor, failures := t.failures } _ := calls _ cs
  have ht : t = { s with
      cursor := t.cursor
      failures := t.failures
      events := s.events ++ cs.toArray.map fun c => .called c.1 c.2 } := by
    rw [← hg, ← hm, ← hk, ← hd, ← ho, ← he]
  rw [ht]
  exact (single hwork).trans hcalls

theorem skippingBlanks (o : Outcome Value) (s : State) :
    Moves env s (Result.state (Matcher.skippingBlanks env o s)) := by
  cases o with
  | failed => exact refl env s
  | matched stop v => exact of_works (.skipBlanks env s)

theorem replay (entry : Entry) (s : State) :
    Moves env s (Result.state (Matcher.replay entry s)) := by
  cases entry with
  | success stop v => exact .single (.work s stop s.failures)
  | failure fs => exact .single (.work s s.cursor (s.failures ++ fs))

theorem recalled (s : State) (p : Nat) (o : Outcome Value) (key : Key) :
    Moves env s (s.recalled p o key) := by
  cases key with
  | builtin c => exact refl env s
  | rule r => exact .single (.reuse s r p o)

/-- Opening a rule is a move, provided that it is not refused. -/
theorem opened (h : key.refused env s = false) : Moves env s (s.opened key) := by
  cases key with
  | builtin c => exact .single (.work s s.cursor #[])
  | rule r => exact (single (.enter s r h)).trans (.single (.work _ s.cursor #[]))

theorem closed (s : State) (p : Nat) (o : Outcome Value) (key : Key) :
    Moves env s (s.closed p o key) := by
  cases key with
  | builtin c => exact refl env s
  | rule r => exact .single (.leave s r p o)

/-- Settling an outcome remembers it, or nothing after the limit was hit. -/
theorem settle (s : State) (key : Key) (p : Nat) (outer : Array Failure) (o : Outcome Value) :
    Moves env s (s.settle env key p outer o) := by
  rw [State.settle_eq]
  split
  · exact (single (.remember s p key _)).trans (.single (.work _ s.cursor _))
  · exact .single (.work s s.cursor _)

theorem entering (s : State) (r : RuleId) : Moves env s (s.entering env r) :=
  (single (.switch s _)).trans (of_works (.skipBlanks env _))

theorem leaving (s : State) (r : RuleId) (o : Outcome Value) (t : State) :
    Moves env t (s.leaving env r o t) := by
  cases o with
  | matched stop v => exact .single (.switch t s.skipping)
  | failed =>
    refine (single (.switch t s.skipping)).trans ?_
    exact of_works ((State.Works.moveTo env _ _).trans (.record env _ _))

/-- Making a body is a move, also if its builder stops with a fault. -/
theorem body? (r : RuleId) (s : State) : Moves env s (Result.state (Matcher.body? r s)) := by
  cases hb : s.grammar.body r with
  | undefined => rw [Matcher.run_body?_undefined hb]; exact refl env s
  | defined x => rw [Matcher.run_body?_defined hb]; exact refl env s
  | delayed b =>
    rw [Matcher.run_body?_delayed hb]
    have hn := State.Works.note env s b.journal (fun _ => "build") s.grammar.handles
    have hb' : (s.note b.journal (fun _ => "build") s.grammar.handles).grammar.body r =
        .delayed b := by
      rw [hn.grammar]
      exact hb
    have h : Moves env s { s.note b.journal (fun _ => "build") s.grammar.handles with
        grammar := (Matcher.built s.grammar r b).2 } := by
      refine (of_works hn).trans (.single ?_)
      have hmove : Move env _ _ := .build _ r b hb'
      rw [hn.grammar] at hmove
      exact hmove
    cases (Matcher.built s.grammar r b).1 with
    | ok x => exact h
    | error f => exact h

end Moves

/-! ## Dialogues and answers -/

/-- If the answers of a dialogue come about by moves, all of it does. -/
theorem Linked.moves {α : Type} {env' : Env} {f : Key → Matcher}
    (hf : ∀ key s, Moves env s (Result.state (f key s))) {d d' : Dialogue α}
    (h : Linked env' env' #[] #[] s t d d') : Moves env s (d.run f).state := by
  induction h with
  | done hu hw huw a => exact .of_works hu
  | halt hu hw huw e => exact .of_works hu
  | @ask s t u w hu hw huw key next next' hnext ih =>
    have hmoves := (Moves.of_works hu).trans (hf key u)
    rw [Dialogue.run_ask]
    cases hr : f key u with
    | error e v => rw [hr] at hmoves; exact hmoves
    | ok o v => rw [hr] at hmoves; exact hmoves.trans (ih o v v (.refl v))

/-- If the work behind an answer comes about by moves, the answer does. -/
theorem answer_moves_of_produce (hp : ∀ s, Moves env s (Result.state (produce env n key s)))
    (s : State) : Moves env s (Result.state (answer env n key s)) := by
  rcases answer_cases env key s with ⟨entry, hk⟩ | ⟨r, rfl, hk, hl⟩ | ⟨hk, hl⟩
  · rw [answer_known hk]
    have hreplay : Moves env s _ := .replay entry s
    cases hr : Matcher.replay entry s with
    | error e t => rw [hr] at hreplay; exact hreplay
    | ok o t =>
      rw [hr] at hreplay
      exact hreplay.trans ((Moves.recalled t s.cursor o key).trans (.skippingBlanks o _))
  · rw [answer_refused hk hl]
    exact (Moves.single (.refuse s r hl)).trans (.of_works (.record env _ _))
  · rw [answer_unknown hk hl]
    have hwork := (Moves.opened hl).trans (hp (s.opened key))
    cases hr : produce env n key (s.opened key) with
    | error e t => rw [hr] at hwork; exact hwork
    | ok o t =>
      rw [hr] at hwork
      refine hwork.trans ((Moves.settle t key s.cursor s.failures o).trans ?_)
      exact (Moves.closed _ s.cursor o key).trans (.skippingBlanks o _)

/-- Work comes about by moves, with any room: a body with less room asks its questions, and each of
them is answered by moves. -/
theorem produce_moves (env : Env) (n : Nat) (key : Key) (s : State) :
    Moves env s (Result.state (produce env n key s)) := by
  induction n generalizing key s with
  | zero =>
    cases key with
    | builtin c =>
      obtain ⟨o, t, ht, hw⟩ := exists_produce_builtin env 0 c s
      rw [ht]
      exact .of_works hw
    | rule r => exact .refl env s
  | succ n ih =>
    cases key with
    | builtin c => rw [produce_builtin, ← produce_builtin env n]; exact ih (.builtin c) s
    | rule r =>
      have henter : Moves env s _ := (Moves.entering s r).trans (.body? r _)
      rw [produce_succ]
      cases hb : Matcher.body? r (s.entering env r) with
      | error e t => rw [hb] at henter; exact henter
      | ok x t =>
        rw [hb] at henter
        cases x with
        | none =>
          exact henter.trans ((Moves.of_works (.record env t _)).trans (.leaving s r .failed _))
        | some x =>
          have hrun := henter.trans ((x.linked_self env t).moves
            fun key s => answer_moves_of_produce (fun s => ih key s) s)
          dsimp only
          cases hr : (x.dialogue env t).run (answer env n) with
          | error e u => rw [hr] at hrun; exact hrun
          | ok o u => rw [hr] at hrun; exact hrun.trans (.leaving s r o u)

/-- Every answer comes about by moves. -/
theorem answer_moves (env : Env) (n : Nat) (key : Key) (s : State) :
    Moves env s (Result.state (answer env n key s)) :=
  answer_moves_of_produce (produce_moves env n key) s

/-- Up to each of its questions a dialogue comes about by moves. -/
theorem Linked.moves_question {α : Type} {d d' : Dialogue α}
    (h : Linked env env #[] #[] s t d d') (hu : d.Reaches (answer env n) key u) :
    Moves env s u := by
  induction hu generalizing s t d' with
  | here key u next =>
    cases h with
    | ask hu hw huw _ hnext => exact .of_works hu
  | @there key key' u v u' o next hr _ ih =>
    cases h with
    | ask hu hw huw _ hnext =>
      have hans := answer_moves env n key u
      rw [hr] at hans
      exact ((Moves.of_works hu).trans hans).trans (ih (hnext o v v (.refl v)))

/-- An evaluation comes about by moves, also if it is halted. -/
theorem Expr.evaluate_moves (env : Env) (x : Expr) (s : State) :
    Moves env s (Result.state (x.evaluate env s)) := by
  rw [Expr.evaluate_eq_run]
  exact (x.linked_self env s).moves (answer_moves env _)

/-! ## What is restored -/

/-- As many rules are open in `t` as in `s`, in the same mode. -/
structure Restores (s t : State) : Prop where
  depth : t.depth = s.depth
  skipping : t.skipping = s.skipping

namespace Restores

theorem trans (h : Restores s t) (h' : Restores t u) : Restores s u :=
  ⟨h'.depth.trans h.depth, h'.skipping.trans h.skipping⟩

/-- What an expression does by itself leaves the depth and the mode. -/
theorem of_works (h : s.Works env t) : Restores s t := ⟨h.depth, h.skipping⟩

end Restores

/-- If the answers of a dialogue restore the depth and the mode, all of it does. -/
theorem Linked.restores {α : Type} {f : Key → Matcher}
    (hf : ∀ key s o t, f key s = .ok o t → Restores s t) {d d' : Dialogue α}
    (h : Linked env env #[] #[] s t d d') {a : α} (hr : d.run f = .ok a u) : Restores s u := by
  induction h with
  | done hu hw huw a => cases hr; exact .of_works hu
  | halt hu hw huw e => cases hr
  | @ask s t v w hv hw hvw key next next' hnext ih =>
    rw [Dialogue.run_ask] at hr
    cases ha : f key v with
    | error e v' => rw [ha] at hr; cases hr
    | ok o v' =>
      rw [ha] at hr
      exact (Restores.of_works hv).trans ((hf key v o v' ha).trans (ih o v' v' (.refl v') hr))

/-- An answer restores the depth and the mode if the work behind it does, as it closes what it has
opened. -/
theorem answer_restores_of_produce (hp : ∀ s o t, produce env n key s = .ok o t → Restores s t)
    {o : Outcome Value} (h : answer env n key s = .ok o t) : Restores s t := by
  rcases answer_cases env key s with ⟨entry, hk⟩ | ⟨r, rfl, hk, hl⟩ | ⟨hk, hl⟩
  · cases entry with
    | success stop v =>
      obtain ⟨es, he⟩ := answer_known_success (n := n) hk
      rw [he] at h
      have hw := State.Works.of_skippingBlanks h
      exact ⟨hw.depth, hw.skipping⟩
    | failure fs =>
      obtain ⟨es, he⟩ := answer_known_failure (n := n) hk
      rw [he] at h
      cases h
      exact ⟨rfl, rfl⟩
  · rw [answer_refused hk hl] at h
    cases h
    exact ⟨rfl, rfl⟩
  · rw [answer_unknown hk hl] at h
    cases hr : produce env n key (s.opened key) with
    | error e u => rw [hr] at h; cases h
    | ok o' u =>
      rw [hr] at h
      have hu := hp _ _ _ hr
      refine Restores.trans ?_ (.of_works (.of_skippingBlanks h))
      rw [State.settle_eq]
      cases key with
      | builtin c => exact ⟨hu.depth, hu.skipping⟩
      | rule r =>
        refine ⟨?_, hu.skipping⟩
        -- opening the rule counted one more, and closing it takes that back
        have hd : u.depth = s.depth + 1 := hu.depth
        change u.depth - 1 = s.depth
        omega

/-- Work restores the depth and the mode, with any room. -/
theorem produce_restores (env : Env) (n : Nat) (key : Key) (s : State) (o : Outcome Value)
    (t : State) (h : produce env n key s = .ok o t) : Restores s t := by
  refine ⟨?_, produce_skipping h⟩
  induction n generalizing key s o t with
  | zero =>
    cases key with
    | builtin c =>
      obtain ⟨o', u, hu, hw⟩ := exists_produce_builtin env 0 c s
      rw [hu] at h
      cases h
      exact hw.depth
    | rule r => cases h
  | succ n ih =>
    cases key with
    | builtin c => rw [produce_builtin, ← produce_builtin env n] at h; exact ih _ _ _ _ h
    | rule r =>
      have hf : ∀ key s o t, answer env n key s = .ok o t → Restores s t := by
        intro key s o t ha
        refine answer_restores_of_produce (fun s o t hp => ?_) ha
        exact ⟨ih key s o t hp, produce_skipping hp⟩
      have hend : ∀ o u, (s.leaving env r o u).depth = u.depth := by
        intro o u
        cases o <;> rfl
      have he : (s.entering env r).depth = s.depth := (State.Works.skipBlanks env _).depth
      obtain ⟨k, ⟨⟩, ⟨-, -, -, rfl⟩ | ⟨x, u, w, -, ⟨-, g, es, rfl⟩, -, hr, rfl⟩⟩ :=
        produce_rule_cases h
      · rw [hend]
        exact he
      · rw [hend, ((x.linked_self env _).restores hf hr).depth]
        exact he

/-- A rule that has come to its end leaves depth and mode as it found them. -/
theorem answer_restores (env : Env) (n : Nat) (key : Key) (s : State) (o : Outcome Value)
    (t : State) (h : answer env n key s = .ok o t) : Restores s t :=
  answer_restores_of_produce (produce_restores env n key) h

/-- Up to each of its questions a dialogue has restored the depth and the mode. -/
theorem Linked.restores_question {α : Type} {d d' : Dialogue α}
    (h : Linked env env #[] #[] s t d d') (hu : d.Reaches (answer env n) key u) :
    Restores s u := by
  induction hu generalizing s t d' with
  | here key u next =>
    cases h with
    | ask hu hw huw _ hnext => exact .of_works hu
  | @there key key' u v u' o next hr _ ih =>
    cases h with
    | ask hu hw huw _ hnext =>
      exact (Restores.of_works hu).trans
        ((answer_restores env n key u o v hr).trans (ih (hnext o v v (.refl v))))

/-- A completed evaluation restores the depth and the mode. -/
theorem Expr.evaluate_restores {x : Expr} {o : Outcome Value} (h : x.evaluate env s = .ok o t) :
    Restores s t := by
  rw [Expr.evaluate_eq_run] at h
  exact (x.linked_self env s).restores (answer_restores env _) h

end

end Packrat
