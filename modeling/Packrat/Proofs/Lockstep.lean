import Packrat.Proofs.Base
import Packrat.Proofs.Dialogue

/-!
# Evaluations side by side

Two runs over the same text, from states that agree in cursor, mode and failures, ask the same
questions as long as they get the same answers. The failures need to agree only above what the two
runs found on their stacks, as no expression looks at what was there before (`Synced`).

`Linked` is this relation between two dialogues, and `Expr.linked` says that the dialogues of one
expression are linked. Both also say of each side that the expression works on cursor, failures and
events only.
-/

namespace Packrat

/-- Two runs over the same text with the same blanks. -/
structure Env.Alike (env env' : Env) : Prop where
  text : env'.text = env.text
  blanks : env'.blanks = env.blanks

namespace Env.Alike

variable {env env' : Env}

theorem refl (env : Env) : Alike env env := ⟨rfl, rfl⟩

theorem length (h : Alike env env') : env'.length = env.length := by
  rw [Env.length, Env.length, h.text]

theorem slice? (h : Alike env env') (p n : Nat) : env'.slice? p n = env.slice? p n := by
  rw [Env.slice?, Env.slice?, h.length, h.text]

/-- Blanks are the same in both, so they end at the same place. -/
theorem skipBlanks (h : Alike env env') (p : Nat) : env'.skipBlanks p = env.skipBlanks p := by
  have hfrom : ∀ n p, env'.skipBlanksFrom p n = env.skipBlanksFrom p n := by
    intro n
    induction n with
    | zero => intro p; rfl
    | succ n ih =>
      intro p
      rw [Env.skipBlanksFrom, Env.skipBlanksFrom, h.text, h.blanks]
      simp only [ih]
  rw [Env.skipBlanks, Env.skipBlanks, h.length]
  exact hfrom _ p

end Env.Alike

/-- Two states with one cursor, and with the same failures on top of `B` and of `B'`. -/
structure Level (B B' : Array Failure) (s t : State) : Prop where
  cursor : t.cursor = s.cursor
  failures : ∃ fs, s.failures = B ++ fs ∧ t.failures = B' ++ fs

/-- Two states from which an expression goes the same way. -/
structure Synced (B B' : Array Failure) (s t : State) : Prop extends Level B B' s t where
  skipping : t.skipping = s.skipping

section

variable {env env' : Env} {B B' : Array Failure} {s t u w : State}

/-! ## Operations side by side -/

namespace Level

/-- Only the cursor and the failures count. -/
theorem congr {s' t' : State} (h : Level B B' s t) (hc : s'.cursor = s.cursor)
    (hf : s'.failures = s.failures) (hc' : t'.cursor = t.cursor)
    (hf' : t'.failures = t.failures) : Level B B' s' t' :=
  ⟨by rw [hc, hc', h.cursor], by rw [hf, hf']; exact h.failures⟩

theorem record (h : Level B B' s t) (cause : Cause) :
    Level B B' (s.record cause) (t.record cause) := by
  obtain ⟨hc, fs, h1, h2⟩ := h
  refine ⟨hc, fs.push ⟨s.cursor, cause⟩, ?_, ?_⟩
  · rw [State.record_failures, h1, Array.append_push]
  · rw [State.record_failures, h2, hc, Array.append_push]

theorem moveTo (henv : env.Alike env') (h : Level B B' s t) (p : Nat) :
    Level B B' (s.moveTo env p) (t.moveTo env' p) := by
  refine ⟨?_, h.failures⟩
  rw [State.moveTo_cursor, State.moveTo_cursor, henv.length]

theorem note {α : Type} (h : Level B B' s t) (journal : Option String) (text : α → String)
    (a : α) : Level B B' (s.note journal text a) (t.note journal text a) := by
  cases journal <;> exact ⟨h.cursor, h.failures⟩

/-- Reading one character comes to the same on both sides, which stay level. -/
theorem scan (henv : env.Alike env') (h : Level B B' s t) (label : String)
    (test : Hook Char Bool) : ∃ o s' t', Matcher.scan env label test s = .ok o s' ∧
      Matcher.scan env' label test t = .ok o t' ∧ Level B B' s' t' ∧ s.Works env s' ∧
      t.Works env' t' := by
  rw [Matcher.run_scan, Matcher.run_scan, henv.text, h.cursor]
  cases env.text[s.cursor]? with
  | none =>
    exact ⟨_, _, _, rfl, rfl, h.record _, .record env s _, .record env' t _⟩
  | some c =>
    have hn := h.note test.journal Char.toString c
    have hs := State.Works.note env s test.journal Char.toString c
    have ht := State.Works.note env' t test.journal Char.toString c
    dsimp only
    split
    · have hm := hn.moveTo henv (s.cursor + 1)
      simp only [State.advance, State.note_cursor, h.cursor]
      refine ⟨_, _, _, rfl, ?_, hm, hs.trans (.moveTo env _ _), ht.trans (.moveTo env' _ _)⟩
      rw [hm.cursor]
    · exact ⟨_, _, _, rfl, rfl, hn.record _, hs.trans (.record env _ _),
        ht.trans (.record env' _ _)⟩

end Level

namespace Synced

theorem refl (s : State) : Synced #[] #[] s s := ⟨⟨rfl, s.failures, by simp, by simp⟩, rfl⟩

theorem congr_left (h : Synced B B' s t) (hc : u.cursor = s.cursor)
    (hf : u.failures = s.failures) (hs : u.skipping = s.skipping) : Synced B B' u t :=
  ⟨⟨h.cursor.trans hc.symm, by rw [hf]; exact h.failures⟩, h.skipping.trans hs.symm⟩

/-- States that were in step and are level again are in step again, as the mode stays. -/
theorem of_works (h : Synced B B' s t) (hl : Level B B' u w) (hu : s.Works env u)
    (hw : t.Works env' w) : Synced B B' u w :=
  ⟨hl, by rw [hu.skipping, hw.skipping, h.skipping]⟩

theorem skipBlanks (henv : env.Alike env') (h : Synced B B' s t) :
    Synced B B' (s.skipBlanks env) (t.skipBlanks env') := by
  have hl : Level B B' (s.skipBlanks env) (t.skipBlanks env') := by
    refine ⟨?_, ?_⟩
    · unfold State.skipBlanks
      rw [h.skipping]
      split
      · dsimp only
        rw [henv.skipBlanks, h.cursor]
      · exact h.cursor
    · rw [State.skipBlanks_failures, State.skipBlanks_failures]
      exact h.failures
  exact h.of_works hl (.skipBlanks env s) (.skipBlanks env' t)

/-- Each side cuts back to the height at which it began. -/
theorem cutBack (h : Synced B B' s t) (h' : Synced B B' u w) :
    Synced B B' (u.cutBack s.failures.size) (w.cutBack t.failures.size) := by
  obtain ⟨fs, h1, h2⟩ := h.failures
  obtain ⟨fs', h1', h2'⟩ := h'.failures
  refine ⟨⟨h'.cursor, fs'.take fs.size, ?_⟩, h'.skipping⟩
  have htake : ∀ A : Array Failure, (A ++ fs').take (A ++ fs).size = A ++ fs'.take fs.size := by
    intro A
    have hA : A.extract 0 (A.size + fs.size) = A := Array.extract_eq_self_of_le (by omega)
    simp [Array.extract_append, hA]
  rw [State.cutBack_failures, State.cutBack_failures, h1, h1', h2, h2']
  exact ⟨htake B, htake B'⟩

end Synced

/-- Skipping the blanks behind an outcome only moves the cursor. -/
theorem State.Works.of_skippingBlanks {o o' : Outcome Value}
    (h : Matcher.skippingBlanks env o s = .ok o' t) : s.Works env t := by
  cases o with
  | failed => cases h; exact .refl s
  | matched stop v => cases h; exact .skipBlanks env s

/-- Reading one character always has an outcome. -/
theorem Matcher.exists_scan (env : Env) (label : String) (test : Hook Char Bool) (s : State) :
    ∃ o t, scan env label test s = .ok o t ∧ s.Works env t := by
  obtain ⟨o, t, -, ht, -, -, hw, -⟩ := (Synced.refl s).toLevel.scan (.refl env) label test
  exact ⟨o, t, ht, hw⟩

/-! ## Dialogues side by side -/

/-- Two dialogues that go the same way. `s` and `t` are the last states that the two sides got from
outside. -/
inductive Linked {α : Type} (env env' : Env) (B B' : Array Failure) :
    State → State → Dialogue α → Dialogue α → Prop where
  | done {s t u w : State} (hu : s.Works env u) (hw : t.Works env' w) (h : Synced B B' u w)
      (a : α) : Linked env env' B B' s t (.done a u) (.done a w)
  | halt {s t u w : State} (hu : s.Works env u) (hw : t.Works env' w) (h : Synced B B' u w)
      (e : Halt) : Linked env env' B B' s t (.halt e u) (.halt e w)
  | ask {s t u w : State} (hu : s.Works env u) (hw : t.Works env' w) (h : Synced B B' u w)
      (key : Key) {next next' : Outcome Value → State → Dialogue α}
      (hnext : ∀ o s' t', Synced B B' s' t' →
        Linked env env' B B' s' t' (next o s') (next' o t')) :
      Linked env env' B B' s t (.ask key u next) (.ask key w next')

namespace Linked

variable {α β : Type}

/-- What happens in front of a dialogue does not matter as long as it is work. -/
theorem of_works {d d' : Dialogue α} (hu : s.Works env u) (hw : t.Works env' w)
    (h : Linked env env' B B' u w d d') : Linked env env' B B' s t d d' := by
  cases h with
  | done hu' hw' h a => exact .done (hu.trans hu') (hw.trans hw') h a
  | halt hu' hw' h e => exact .halt (hu.trans hu') (hw.trans hw') h e
  | ask hu' hw' h key hnext => exact .ask (hu.trans hu') (hw.trans hw') h key hnext

/-- Dialogues in a row are linked if the second ones are wherever the first ones end. -/
theorem bind {d d' : Dialogue α} (h : Linked env env' B B' s t d d')
    {f f' : α → State → Dialogue β}
    (hf : ∀ a u w, Synced B B' u w → Linked env env' B B' u w (f a u) (f' a w)) :
    Linked env env' B B' s t (d.bind f) (d'.bind f') := by
  induction h with
  | done hu hw h a => exact (hf a _ _ h).of_works hu hw
  | halt hu hw h e => exact .halt hu hw h e
  | ask hu hw h key _ ih => exact .ask hu hw h key ih

theorem finish (h : Synced B B' s t) (hu : s.Works env u) (hw : t.Works env' w)
    (hl : Level B B' u w) (a : α) : Linked env env' B B' s t (.done a u) (.done a w) :=
  .done hu hw (h.of_works hl hu hw) a

/-- Both sides go back to one place and fail for one cause. -/
theorem giveUp (henv : env.Alike env') (h : Synced B B' s t) (p : Nat) (cause : Cause) (a : α) :
    Linked env env' B B' s t (.done a ((s.moveTo env p).record cause))
      (.done a ((t.moveTo env' p).record cause)) :=
  finish h ((State.Works.moveTo env s p).trans (.record env _ cause))
    ((State.Works.moveTo env' t p).trans (.record env' _ cause))
    ((h.toLevel.moveTo henv p).record cause) a

/-- The loops of two repetitions are linked if their parts are. -/
theorem collect (count : Count) {d d' : State → Dialogue (Outcome Value)}
    (hd : ∀ s t, Synced B B' s t → Linked env env' B B' s t (d s) (d' t)) (budget : Nat) :
    ∀ items s t, Synced B B' s t → Linked env env' B B' s t
      (Dialogue.collect count d budget items s) (Dialogue.collect count d' budget items t) := by
  induction budget with
  | zero => intro items s t h; exact .halt (.refl s) (.refl t) h .exhausted
  | succ budget ih =>
    intro items s t h
    rw [Dialogue.collect, Dialogue.collect]
    split
    · exact .done (.refl s) (.refl t) h items
    · refine (hd s t h).bind fun o u w huw => ?_
      cases o with
      | failed => exact .done (.refl u) (.refl w) huw items
      | matched stop v =>
        dsimp only
        rw [h.cursor]
        split
        · exact .done (.refl u) (.refl w) huw (items.push v)
        · exact ih (items.push v) u w huw

end Linked

/-! ## Expressions side by side -/

/-- A character is read without questions, and alike on both sides. -/
theorem linked_char (henv : env.Alike env') (h : Synced B B' s t) (test : Hook Char Bool) :
    Linked env env' B B' s t (.ofResult (Matcher.char env test s))
      (.ofResult (Matcher.char env' test t)) := by
  obtain ⟨o, u, w, hs, ht, hl, hu, hw⟩ := h.toLevel.scan henv "Character" test
  have huw := h.of_works hl hu hw
  rw [Matcher.char, Matcher.char, ParseM.run_bind, ParseM.run_bind, hs, ht]
  cases o with
  | failed => exact .done hu hw huw _
  | matched stop v =>
    have hb := huw.skipBlanks henv
    simp only [Matcher.run_skippingBlanks_matched, Dialogue.ofResult, hb.cursor]
    exact .done (hu.trans (.skipBlanks env u)) (hw.trans (.skipBlanks env' w)) hb _

/-- A literal is read without questions, and alike on both sides. -/
theorem linked_literal (henv : env.Alike env') (h : Synced B B' s t) (length : Nat)
    (test : Hook String Bool) :
    Linked env env' B B' s t (.ofResult (Matcher.literal env length test s))
      (.ofResult (Matcher.literal env' length test t)) := by
  rw [Matcher.run_literal, Matcher.run_literal, henv.slice?, h.cursor]
  cases env.slice? s.cursor length with
  | none => exact .finish h (.record env s _) (.record env' t _) (h.toLevel.record _) _
  | some text =>
    have hn := h.toLevel.note test.journal id text
    have hs := State.Works.note env s test.journal id text
    have ht := State.Works.note env' t test.journal id text
    dsimp only
    split
    · simp only [State.advance, State.note_cursor, h.cursor]
      have hm := h.of_works (hn.moveTo henv (s.cursor + length)) (hs.trans (.moveTo env _ _))
        (ht.trans (.moveTo env' _ _))
      have hb := hm.skipBlanks henv
      simp only [Dialogue.ofResult, hb.cursor]
      exact .done (hs.trans ((State.Works.moveTo env _ _).trans (.skipBlanks env _)))
        (ht.trans ((State.Works.moveTo env' _ _).trans (.skipBlanks env' _))) hb _
    · exact .finish h (hs.trans (.record env _ _)) (ht.trans (.record env' _ _)) (hn.record _) _

namespace Expr

mutual

/-- The dialogues of an expression from two states that agree are linked. -/
theorem linked (henv : env.Alike env') (x : Expr) (s t : State) (h : Synced B B' s t) :
    Linked env env' B B' s t (x.dialogue env s) (x.dialogue env' t) := by
  cases x with
  | builtin c =>
    rw [dialogue, dialogue]
    exact .ask (.refl s) (.refl t) h _ fun o u w huw => .done (.refl u) (.refl w) huw o
  | char test =>
    rw [dialogue, dialogue]
    exact linked_char henv h test
  | literal length test =>
    rw [dialogue, dialogue]
    exact linked_literal henv h length test
  | empty =>
    rw [dialogue, dialogue, h.cursor]
    exact .done (.refl s) (.refl t) h _
  | fail message =>
    rw [dialogue, dialogue]
    exact .finish h (.record env s _) (.record env' t _) (h.toLevel.record _) _
  | position =>
    rw [dialogue, dialogue, h.cursor]
    exact .done (.refl s) (.refl t) h _
  | rule r =>
    rw [dialogue, dialogue]
    exact .ask (.refl s) (.refl t) h _ fun o u w huw => .done (.refl u) (.refl w) huw o
  | optionalAs label x =>
    rw [dialogue, dialogue]
    refine (linked henv x s t h).bind fun o u w huw => ?_
    have hcut := h.cutBack huw
    cases o <;> dsimp only <;> rw [huw.cursor] <;>
      exact .done (.cutBack env u _) (.cutBack env' w _) hcut _
  | repeatedAs label x count =>
    rw [dialogue, dialogue, h.cursor, henv.length]
    refine (Linked.collect count (fun s t => linked henv x s t) _ #[] s t h).bind
      fun items u w huw => ?_
    split
    · rw [huw.cursor]
      exact .done (.cutBack env u _) (.cutBack env' w _) (h.cutBack huw) _
    · exact .giveUp henv huw s.cursor _ _
  | lookaheadAs label negated x =>
    rw [dialogue, dialogue, h.cursor]
    refine (linked henv x s t h).bind fun o u w huw => ?_
    split
    · exact .giveUp henv huw s.cursor _ _
    · have hu := State.Works.moveTo env u s.cursor
      have hw := State.Works.moveTo env' w s.cursor
      have hm := huw.of_works (huw.toLevel.moveTo henv s.cursor) hu hw
      exact .done (hu.trans (.cutBack env _ _)) (hw.trans (.cutBack env' _ _)) (h.cutBack hm) _
  | sequenceAs label type steps build =>
    rw [dialogue, dialogue, h.cursor]
    refine (stepsLinked henv steps s t h).bind fun slots u w huw => ?_
    cases slots with
    | none => exact .giveUp henv huw s.cursor _ _
    | some slots =>
      have hcut := h.cutBack huw
      have hl := hcut.toLevel.note build.journal (fun _ => "run") slots
      have hu := (State.Works.cutBack env u s.failures.size).trans
        (.note env _ build.journal (fun _ => "run") slots)
      have hw := (State.Works.cutBack env' w t.failures.size).trans
        (.note env' _ build.journal (fun _ => "run") slots)
      have hend := huw.of_works hl hu hw
      dsimp only
      rw [hl.cursor]
      cases build.apply slots with
      | ok v => exact .done hu hw hend _
      | error f => exact .halt hu hw hend _
  | choiceAs label xs =>
    rw [dialogue, dialogue, h.cursor]
    refine (firstLinked henv s.cursor xs s t h).bind fun o u w huw => ?_
    cases o with
    | matched stop v => exact .done (.cutBack env u _) (.cutBack env' w _) (h.cutBack huw) _
    | failed => exact .finish huw (.record env u _) (.record env' w _) (huw.toLevel.record _) _
  | map type f x =>
    rw [dialogue, dialogue]
    refine (linked henv x s t h).bind fun o u w huw => ?_
    cases o with
    | matched stop v =>
      exact .finish huw (.note env u _ _ v) (.note env' w _ _ v) (huw.toLevel.note _ _ v) _
    | failed => exact .done (.refl u) (.refl w) huw _

/-- The same for the steps of a sequence. -/
theorem stepsLinked (henv : env.Alike env') (steps : List (Step Expr)) (s t : State)
    (h : Synced B B' s t) :
    Linked env env' B B' s t (stepsDialogue env steps s) (stepsDialogue env' steps t) := by
  cases steps with
  | nil =>
    rw [stepsDialogue, stepsDialogue]
    exact .done (.refl s) (.refl t) h _
  | cons step rest =>
    obtain ⟨x, store⟩ := step
    rw [stepsDialogue, stepsDialogue]
    refine (linked henv x s t h).bind fun o u w huw => ?_
    cases o with
    | failed => exact .done (.refl u) (.refl w) huw _
    | matched stop v =>
      refine (stepsLinked henv rest u w huw).bind fun slots u' w' huw' => ?_
      cases slots <;> exact .done (.refl u') (.refl w') huw' _

/-- The same for the alternatives of a choice. -/
theorem firstLinked (henv : env.Alike env') (start : Nat) (xs : List Expr) (s t : State)
    (h : Synced B B' s t) :
    Linked env env' B B' s t (firstDialogue env start xs s) (firstDialogue env' start xs t) := by
  cases xs with
  | nil =>
    rw [firstDialogue, firstDialogue]
    exact .done (.refl s) (.refl t) h _
  | cons x rest =>
    rw [firstDialogue, firstDialogue]
    refine (linked henv x s t h).bind fun o u w huw => ?_
    cases o with
    | matched stop v => exact .done (.refl u) (.refl w) huw _
    | failed =>
      have hu := State.Works.moveTo env u start
      have hw := State.Works.moveTo env' w start
      have hm := huw.of_works (huw.toLevel.moveTo henv start) hu hw
      exact (firstLinked henv start rest _ _ hm).of_works hu hw

end

end Expr

/-- An expression works on cursor, failures and events only, whatever the answers are. -/
theorem Expr.linked_self (env : Env) (x : Expr) (s : State) :
    Linked env env #[] #[] s s (x.dialogue env s) (x.dialogue env s) :=
  x.linked (.refl env) s s (.refl s)

end

end Packrat
