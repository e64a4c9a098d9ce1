import Packrat.Proofs.Blanks
import Packrat.Proofs.References
import Packrat.Proofs.Reporting
import Packrat.Proofs.Scope

/-!
# Runs of two grammars

Two runs over one text, each with a grammar of its own, go abreast as long as they stand at the same
place in the same mode (`Abreast`). One run mirrors the other if it comes to the same outcomes from
there, and goes on abreast (`Mirrors`); failures and labels may differ. Every composite mirrors
another one whose parts mirror its parts, so an expression mirrors itself in the other grammar if
the rules in it do (`Expr.mirrored`), and a rule does if its body does (`mirrors_rule`).

A grammar changes while bodies are built on first use. What it stands for does not, provided that
building a body does not depend on what others have named (`Grammar.Upholds`).
-/

namespace Packrat

/-! ## What a grammar stands for -/

/-- What a body is when it is needed: none, an expression, or the fault with which its building
stops. A body that is built on first use has a meaning if what is built does not depend on the
handles that are named by then. -/
def Body.Means : Body → Option (Except Fault Expr) → Prop
  | .undefined, meaning => meaning = none
  | .defined x, meaning => meaning = some (.ok x)
  | .delayed build, meaning =>
    ∃ result, meaning = some result ∧ ∀ handles, (build.apply handles).1 = result

/-- A body has one meaning at most. -/
theorem Body.Means.unique {b : Body} {meaning meaning' : Option (Except Fault Expr)}
    (h : b.Means meaning) (h' : b.Means meaning') : meaning = meaning' := by
  cases b with
  | undefined => exact h.trans h'.symm
  | defined x => exact h.trans h'.symm
  | delayed build =>
    obtain ⟨result, rfl, hall⟩ := h
    obtain ⟨result', rfl, hall'⟩ := h'
    rw [← hall [], ← hall' []]

/-- The rules of `g'` have the modes and bodies that those of `g` stand for. -/
structure Grammar.Upholds (g g' : Grammar) : Prop where
  skipsBlanks : ∀ r, g'.skipsBlanks r = g.skipsBlanks r
  means : ∀ r meaning, (g.body r).Means meaning → (g'.body r).Means meaning

namespace Grammar.Upholds

variable {g g' : Grammar} {r : RuleId} {s : State}

theorem refl (g : Grammar) : g.Upholds g := ⟨fun _ => rfl, fun _ _ h => h⟩

/-- A grammar is upheld when a body is built that means what it was meant to. -/
theorem built {build : Hook Handles (Except Fault Expr × Handles)} {x : Expr}
    (h : g.Upholds g') (hr : g'.body r = .delayed build)
    (hx : ∀ handles, (build.apply handles).1 = .ok x) (handles : Handles) :
    g.Upholds ({ g' with handles }.setBody r x) where
  skipsBlanks r' := (skipsBlanks_setBody _ r r' x).trans (h.skipsBlanks r')
  means r' meaning hm := by
    have hold := h.means r' meaning hm
    rw [body_setBody]
    split
    next hi =>
      -- the body that was built is what the delayed one means, whatever was named by then
      rw [body_congr_index g' hi.1.symm, hr] at hold
      obtain ⟨result, rfl, hall⟩ := hold
      rw [← hall [], hx]
      rfl
    · exact hold

/-- Looking for a body finds what it means. -/
theorem body? {meaning : Option (Except Fault Expr)} (h : g.Upholds s.grammar)
    (hm : (g.body r).Means meaning) :
    match meaning with
    | none => Matcher.body? r s = .ok none s
    | some (.ok x) =>
      ∃ t, Matcher.body? r s = .ok (some x) t ∧ s.Rebuilt t ∧ g.Upholds t.grammar
    | some (.error f) => ∃ t, Matcher.body? r s = .error (.fault f) t := by
  have hs := h.means r meaning hm
  cases hb : s.grammar.body r with
  | undefined =>
    rw [hb] at hs
    cases hs
    exact Matcher.run_body?_undefined hb
  | defined x =>
    rw [hb] at hs
    cases hs
    exact ⟨s, Matcher.run_body?_defined hb, .refl s, h⟩
  | delayed build =>
    rw [hb] at hs
    obtain ⟨result, rfl, hall⟩ := hs
    have hrun := Matcher.run_body?_delayed hb
    unfold Matcher.built at hrun
    have hresult := hall s.grammar.handles
    cases ha : build.apply s.grammar.handles with
    | mk result' handles =>
      rw [ha] at hresult hrun
      cases hresult
      cases result' with
      | error f => exact ⟨_, hrun⟩
      | ok x =>
        exact ⟨_, hrun, Matcher.rebuilt_of_body? hrun, h.built hb hall handles⟩

end Grammar.Upholds

/-! ## Abreast -/

/-- Two runs, of the grammars `g` and `g'`, that stand at the same place in the same mode. If blanks
are skipped, none stands there. -/
structure Abreast (env : Env) (g g' : Grammar) (mode : Bool) (s t : State) : Prop where
  cursor : t.cursor = s.cursor
  inside : s.cursor ≤ env.length
  left : s.skipping = mode
  right : t.skipping = mode
  settled : mode = true → env.Settled s.cursor
  upholds : g.Upholds s.grammar
  upholds' : g'.Upholds t.grammar

/-- Wherever `m` comes to a result, `m'` comes to the same from a related state, and ends in one. -/
def Mirrors {α : Type} (R : State → State → Prop) (m m' : ParseM α) : Prop :=
  ∀ s t a u, R s t → m s = .ok a u → ∃ w, m' t = .ok a w ∧ R u w

/-- A state with the cursor, the mode and the grammar of another one. -/
structure State.Stays (s t : State) : Prop where
  cursor : t.cursor = s.cursor
  skipping : t.skipping = s.skipping
  grammar : t.grammar = s.grammar

theorem State.Stays.note {α : Type} (s : State) (journal : Option String) (text : α → String)
    (a : α) : s.Stays (s.note journal text a) := by
  cases journal <;> exact ⟨rfl, rfl, rfl⟩

section

variable {env : Env} {g g' : Grammar} {mode : Bool} {s t u w : State}

namespace Abreast

/-- Runs stay abreast where neither of them moves. -/
theorem of_stays (h : Abreast env g g' mode s t) (hu : s.Stays u) (hw : t.Stays w) :
    Abreast env g g' mode u w where
  cursor := by rw [hu.cursor, hw.cursor, h.cursor]
  inside := by rw [hu.cursor]; exact h.inside
  left := hu.skipping.trans h.left
  right := hw.skipping.trans h.right
  settled hm := by rw [hu.cursor]; exact h.settled hm
  upholds := by rw [hu.grammar]; exact h.upholds
  upholds' := by rw [hw.grammar]; exact h.upholds'

/-- Both runs go back to where they stood before. -/
theorem back (h : Abreast env g g' mode s t) (h' : Abreast env g g' mode u w) :
    Abreast env g g' mode (u.moveTo env s.cursor) (w.moveTo env t.cursor) where
  cursor := by rw [State.moveTo_cursor, State.moveTo_cursor, h.cursor]
  inside := Nat.min_le_right ..
  left := h'.left
  right := h'.right
  settled hm := (h.settled hm).min
  upholds := h'.upholds
  upholds' := h'.upholds'

/-- Works by which both runs come to the same place. -/
theorem of_works {env' : Env} (h : Abreast env g g' mode s t) (hu : s.Works env u)
    (hw : t.Works env' w) (hc : w.cursor = u.cursor)
    (hsettled : mode = true → env.Settled u.cursor) :
    Abreast env g g' mode u w where
  cursor := hc
  inside := hu.inside h.inside
  left := hu.skipping.trans h.left
  right := hw.skipping.trans h.right
  settled := hsettled
  upholds := by rw [hu.grammar]; exact h.upholds
  upholds' := by rw [hw.grammar]; exact h.upholds'

theorem synced (h : Abreast env g g' mode s t) : Synced s.failures t.failures s t :=
  ⟨⟨h.cursor, #[], by simp, by simp⟩, h.right.trans h.left.symm⟩

theorem poised (h : Abreast env g g' mode s t) (hm : mode = true) : Poised env s :=
  ⟨h.left.trans hm, h.settled hm⟩

end Abreast

/-! ## Composites -/

namespace Matcher

variable {m m' : Matcher}

theorem mirrors_optional (hm : Mirrors (Abreast env g g' mode) m m') :
    Mirrors (Abreast env g g' mode) (optional m) (optional m') := by
  intro s t o u h hr
  rw [run_optional] at hr ⊢
  cases hs : m s with
  | error e u' => rw [hs] at hr; cases hr
  | ok o' u' =>
    obtain ⟨w', ht, h'⟩ := hm s t o' u' h hs
    have hend : Abreast env g g' mode (u'.cutBack s.failures.size) (w'.cutBack t.failures.size) :=
      h'.of_stays ⟨rfl, rfl, rfl⟩ ⟨rfl, rfl, rfl⟩
    rw [hs] at hr
    rw [ht]
    cases o' <;> cases hr <;> dsimp only <;> rw [h'.cursor] <;> exact ⟨_, rfl, hend⟩

/-- The loops of two repetitions collect the same items. -/
theorem mirrors_collect (hm : Mirrors (Abreast env g g' mode) m m') (count : Count)
    (budget : Nat) : ∀ items, Mirrors (Abreast env g g' mode) (collect count m budget items)
      (collect count m' budget items) := by
  induction budget with
  | zero => intro items s t a u h hr; cases hr
  | succ budget ih =>
    intro items s t a u h hr
    rw [run_collect_succ] at hr ⊢
    split at hr
    next hfull =>
      rw [if_pos hfull]
      cases hr
      exact ⟨t, rfl, h⟩
    next hfull =>
      rw [if_neg hfull]
      cases hs : m s with
      | error e u' => rw [hs] at hr; cases hr
      | ok o u' =>
        obtain ⟨w', ht, h'⟩ := hm s t o u' h hs
        rw [hs] at hr
        rw [ht]
        cases o with
        | failed => cases hr; exact ⟨w', rfl, h'⟩
        | matched stop v =>
          dsimp only at hr ⊢
          -- whether a round consumed anything is read off the start, which both runs share
          rw [h.cursor]
          split at hr
          next hend => rw [if_pos hend]; cases hr; exact ⟨w', rfl, h'⟩
          next hend => rw [if_neg hend]; exact ih (items.push v) u' w' a u h' hr

theorem mirrors_repeated (hm : Mirrors (Abreast env g g' mode) m m') (label label' : String)
    (count : Count) : Mirrors (Abreast env g g' mode) (repeated env label count m)
      (repeated env label' count m') := by
  intro s t o u h hr
  rw [run_repeated] at hr ⊢
  rw [h.cursor]
  cases hs : collect count m (count.least + (env.length - s.cursor) + 1) #[] s with
  | error e u' => rw [hs] at hr; cases hr
  | ok items u' =>
    obtain ⟨w', ht, h'⟩ := mirrors_collect hm count _ #[] s t items u' h hs
    rw [hs] at hr
    rw [ht]
    dsimp only at hr ⊢
    split at hr
    next hle =>
      rw [if_pos hle, h'.cursor]
      cases hr
      exact ⟨_, rfl, h'.of_stays ⟨rfl, rfl, rfl⟩ ⟨rfl, rfl, rfl⟩⟩
    next hle =>
      have hback := h.back h'
      rw [h.cursor] at hback
      rw [if_neg hle]
      cases hr
      exact ⟨_, rfl, hback.of_stays ⟨rfl, rfl, rfl⟩ ⟨rfl, rfl, rfl⟩⟩

/-- Lookaheads of the same kind go back to the same place. -/
theorem mirrors_lookahead (hm : Mirrors (Abreast env g g' mode) m m') (label label' : String)
    (negated : Bool) : Mirrors (Abreast env g g' mode) (lookahead env label negated m)
      (lookahead env label' negated m') := by
  intro s t o u h hr
  rw [run_lookahead] at hr ⊢
  cases hs : m s with
  | error e u' => rw [hs] at hr; cases hr
  | ok o' u' =>
    obtain ⟨w', ht, h'⟩ := hm s t o' u' h hs
    have hback := h.back h'
    rw [hs] at hr
    rw [ht]
    dsimp only at hr ⊢
    split at hr
    next hwrong =>
      rw [if_pos hwrong]
      cases hr
      exact ⟨_, rfl, hback.of_stays ⟨rfl, rfl, rfl⟩ ⟨rfl, rfl, rfl⟩⟩
    next hright =>
      rw [if_neg hright]
      cases hr
      refine ⟨(w'.moveTo env t.cursor).cutBack t.failures.size, by rw [h.cursor], ?_⟩
      exact hback.of_stays ⟨rfl, rfl, rfl⟩ ⟨rfl, rfl, rfl⟩

theorem mirrors_runSteps {steps steps' : List (Step Matcher)}
    (hm : List.Forall₂ (fun step step' => step.store = step'.store ∧
      Mirrors (Abreast env g g' mode) step.body step'.body) steps steps') :
    Mirrors (Abreast env g g' mode) (runSteps steps) (runSteps steps') := by
  induction hm with
  | nil => intro s t a u h hr; cases hr; exact ⟨t, rfl, h⟩
  | @cons step step' rest rest' hstep _ ih =>
    obtain ⟨hstore, hbody⟩ := hstep
    intro s t a u h hr
    rw [run_runSteps_cons] at hr ⊢
    cases hs : step.body s with
    | error e u' => rw [hs] at hr; cases hr
    | ok o u' =>
      obtain ⟨w', ht, h'⟩ := hbody s t o u' h hs
      rw [hs] at hr
      rw [ht]
      cases o with
      | failed => cases hr; exact ⟨w', rfl, h'⟩
      | matched stop v =>
        dsimp only at hr ⊢
        cases hu : runSteps rest u' with
        | error e u'' => rw [hu] at hr; cases hr
        | ok slots u'' =>
          obtain ⟨w'', hw, h''⟩ := ih u' w' slots u'' h' hu
          rw [hu] at hr
          rw [hw, ← hstore]
          cases slots <;> cases hr <;> exact ⟨w'', rfl, h''⟩

theorem mirrors_sequence {steps steps' : List (Step Matcher)}
    (hm : List.Forall₂ (fun step step' => step.store = step'.store ∧
      Mirrors (Abreast env g g' mode) step.body step'.body) steps steps') (label label' : String)
    (build : Hook Slots (Except Fault Value)) :
    Mirrors (Abreast env g g' mode) (sequence env label steps build)
      (sequence env label' steps' build) := by
  intro s t o u h hr
  rw [run_sequence] at hr ⊢
  cases hs : runSteps steps s with
  | error e u' => rw [hs] at hr; cases hr
  | ok slots u' =>
    obtain ⟨w', ht, h'⟩ := mirrors_runSteps hm s t slots u' h hs
    rw [hs] at hr
    rw [ht]
    cases slots with
    | none =>
      cases hr
      exact ⟨_, rfl, (h.back h').of_stays ⟨rfl, rfl, rfl⟩ ⟨rfl, rfl, rfl⟩⟩
    | some slots =>
      -- cutting back leaves the two runs abreast, since failures are not compared
      have hcut : Abreast env g g' mode (u'.cutBack s.failures.size)
          (w'.cutBack t.failures.size) := h'.of_stays ⟨rfl, rfl, rfl⟩ ⟨rfl, rfl, rfl⟩
      have hend := hcut.of_stays (.note _ build.journal (fun _ => "run") slots)
        (.note _ build.journal (fun _ => "run") slots)
      dsimp only at hr ⊢
      rw [hend.cursor]
      cases hb : build.apply slots with
      | error f => rw [hb] at hr; cases hr
      | ok v => rw [hb] at hr; cases hr; exact ⟨_, rfl, hend⟩

theorem mirrors_firstOf {ms ms' : List Matcher}
    (hm : List.Forall₂ (Mirrors (Abreast env g g' mode)) ms ms') {s₀ t₀ : State}
    (h₀ : Abreast env g g' mode s₀ t₀) :
    Mirrors (Abreast env g g' mode) (firstOf env s₀.cursor ms) (firstOf env t₀.cursor ms') := by
  induction hm with
  | nil => intro s t a u h hr; cases hr; exact ⟨t, rfl, h⟩
  | @cons m m' rest rest' hbody _ ih =>
    intro s t a u h hr
    rw [run_firstOf_cons] at hr ⊢
    cases hs : m s with
    | error e u' => rw [hs] at hr; cases hr
    | ok o u' =>
      obtain ⟨w', ht, h'⟩ := hbody s t o u' h hs
      rw [hs] at hr
      rw [ht]
      cases o with
      | matched stop v => cases hr; exact ⟨w', rfl, h'⟩
      | failed => exact ih _ _ a u (h₀.back h') hr

theorem mirrors_choice {ms ms' : List Matcher}
    (hm : List.Forall₂ (Mirrors (Abreast env g g' mode)) ms ms') (label label' : String) :
    Mirrors (Abreast env g g' mode) (choice env label ms) (choice env label' ms') := by
  intro s t o u h hr
  rw [run_choice] at hr ⊢
  cases hs : firstOf env s.cursor ms s with
  | error e u' => rw [hs] at hr; cases hr
  | ok o' u' =>
    obtain ⟨w', ht, h'⟩ := mirrors_firstOf hm h s t o' u' h hs
    rw [hs] at hr
    rw [ht]
    cases o' <;> cases hr <;> exact ⟨_, rfl, h'.of_stays ⟨rfl, rfl, rfl⟩ ⟨rfl, rfl, rfl⟩⟩

theorem mirrors_map (hm : Mirrors (Abreast env g g' mode) m m') (f : Hook Value Value) :
    Mirrors (Abreast env g g' mode) (map f m) (map f m') := by
  intro s t o u h hr
  rw [run_map] at hr ⊢
  cases hs : m s with
  | error e u' => rw [hs] at hr; cases hr
  | ok o' u' =>
    obtain ⟨w', ht, h'⟩ := hm s t o' u' h hs
    rw [hs] at hr
    rw [ht]
    cases o' with
    | failed => cases hr; exact ⟨w', rfl, h'⟩
    | matched stop v =>
      cases hr
      exact ⟨_, rfl, h'.of_stays (.note u' f.journal Value.display v)
        (.note w' f.journal Value.display v)⟩

end Matcher

/-! ## Terminals -/

/-- A result that both sides of a link have reached without a question. -/
theorem Linked.of_ofResult {α : Type} {env' : Env} {B B' : Array Failure} {r r' : Result α} {a : α}
    (h : Linked env env' B B' s t (.ofResult r) (.ofResult r')) (hr : r = .ok a u) :
    ∃ w, r' = .ok a w ∧ s.Works env u ∧ t.Works env' w ∧ Synced B B' u w := by
  subst hr
  cases r' with
  | error e w => cases h
  | ok b w =>
    cases h with
    | done hu hw huw => exact ⟨w, rfl, hu, hw, huw⟩

theorem mirrors_char (test : Hook Char Bool) : Mirrors (Abreast env g g' mode)
    (Matcher.char env test) (Matcher.char env test) := by
  intro s t o u h hr
  have hlink := linked_char (.refl env) h.synced test
  obtain ⟨w, hw, hsu, htw, hsync⟩ := hlink.of_ofResult hr
  refine ⟨w, hw, h.of_works hsu htw hsync.cursor fun hm => ?_⟩
  exact (Matcher.poises_char test s o u (h.poised hm) hr).settled

theorem mirrors_literal (length : Nat) (test : Hook String Bool) :
    Mirrors (Abreast env g g' mode) (Matcher.literal env length test)
      (Matcher.literal env length test) := by
  intro s t o u h hr
  have hlink := linked_literal (.refl env) h.synced length test
  obtain ⟨w, hw, hsu, htw, hsync⟩ := hlink.of_ofResult hr
  refine ⟨w, hw, h.of_works hsu htw hsync.cursor fun hm => ?_⟩
  exact (Matcher.poises_literal length test s o u (h.poised hm) hr).settled

/-! ## Answers -/

/-- What is left of a state after an answer was settled. -/
theorem settled_stays (env : Env) (s : State) (key : Key) (p : Nat) (failures : Array Failure)
    (o : Outcome Value) : s.Stays ((s.settle env key p failures o).closed p o key) := by
  obtain ⟨d, es, he⟩ := (s.settle env key p failures o).closed_eq p o key
  rw [he, State.settle_eq]
  exact ⟨rfl, rfl, rfl⟩

/-- Work that was done side by side is answered side by side. -/
theorem Abreast.answered {n k : Nat} (key : Key) {o o' : Outcome Value}
    (h : Abreast env.reference g g' mode s t)
    (hp : produce env.reference n key (s.opened key) = .ok o u)
    (hp' : produce env.reference k key (t.opened key) = .ok o w) (hc : w.cursor = u.cursor)
    (hg : g.Upholds u.grammar) (hg' : g'.Upholds w.grammar) {s' : State}
    (hr : answer env.reference n key s = .ok o' s') :
    ∃ t', answer env.reference k key t = .ok o' t' ∧ Abreast env.reference g g' mode s' t' := by
  -- where the first run ends, and that no blank stands there, is known of any answer
  have hs : Sane env.reference s := sane_reference h.inside
  have hland := orderly_answer n key s hs
  have hpoised := fun hm => poises_answer env.reference n key s o' s' (h.poised hm) hr
  rw [hr] at hland
  have hleft := (produce_skipping hp).trans ((s.opened_skipping key).trans h.left)
  have hright := (produce_skipping hp').trans ((t.opened_skipping key).trans h.right)
  have hu := settled_stays env.reference u key s.cursor s.failures o
  have hw := settled_stays env.reference w key t.cursor t.failures o
  rw [answer_reference, hp] at hr
  rw [answer_reference, hp']
  dsimp only at hr ⊢
  generalize (u.settle env.reference key s.cursor s.failures o).closed s.cursor o key = u' at hu hr
  generalize (w.settle env.reference key t.cursor t.failures o).closed t.cursor o key = w' at hw ⊢
  have hsync : Synced u'.failures w'.failures u' w' := by
    refine ⟨⟨by rw [hu.cursor, hw.cursor, hc], #[], by simp, by simp⟩, ?_⟩
    rw [hu.skipping, hw.skipping, hleft, hright]
  obtain ⟨o'', s'', t', hs', ht', hend, hsw, htw⟩ := hsync.skippingBlanks (.refl env.reference) o
  rw [hs'] at hr
  cases hr
  refine ⟨t', ht', hend.cursor, hland.1.cursor, ?_, ?_, fun hm => (hpoised hm).settled, ?_, ?_⟩
  · rw [hsw.skipping, hu.skipping, hleft]
  · rw [htw.skipping, hw.skipping, hright]
  · rw [hsw.grammar, hu.grammar]
    exact hg
  · rw [htw.grammar, hw.grammar]
    exact hg'

/-- A character class is worked out on both sides, since the reference run recalls nothing. -/
theorem mirrors_builtin (c : CharClass) : Mirrors (Abreast env.reference g g' mode)
    (Matcher.builtin env.reference c) (Matcher.builtin env.reference c) := by
  intro s t o u h hr
  obtain ⟨o', s', t', hs', ht', hl, hsw, htw⟩ := (Level.opened h.cursor (.builtin c)).scan
    (.refl env.reference) c.label { apply := c.holds }
  refine h.answered (n := 0) (k := 0) (.builtin c) hs' ht' hl.cursor ?_ ?_ hr
  · rw [hsw.grammar]
    exact h.upholds
  · rw [htw.grammar]
    exact h.upholds'

/-! ## Rules -/

theorem State.Stays.opened (s : State) (key : Key) : s.Stays (s.opened key) :=
  ⟨s.opened_cursor key, s.opened_skipping key, s.opened_grammar key⟩

variable {r : RuleId}

namespace Abreast

/-- Both runs enter a rule that has the same mode in both grammars. -/
theorem entering (h : Abreast env g g' mode s t) (hr : g'.skipsBlanks r = g.skipsBlanks r) :
    Abreast env g g' (g.skipsBlanks r) (s.entering env r) (t.entering env r) where
  cursor := by
    rw [entering_cursor, entering_cursor, h.upholds.skipsBlanks, h.upholds'.skipsBlanks, hr,
      h.cursor]
  inside := (entering_bounds h.inside r).2
  left := by rw [entering_skipping, h.upholds.skipsBlanks]
  right := by rw [entering_skipping, h.upholds'.skipsBlanks, hr]
  settled hm := (poised_entering ((h.upholds.skipsBlanks r).trans hm)).settled
  upholds := by rw [entering_grammar]; exact h.upholds
  upholds' := by rw [entering_grammar]; exact h.upholds'

/-- Building bodies leaves two runs abreast. -/
theorem of_rebuilt (h : Abreast env g g' mode s t) (hu : s.Rebuilt u) (hw : t.Rebuilt w)
    (hg : g.Upholds u.grammar) (hg' : g'.Upholds w.grammar) : Abreast env g g' mode u w := by
  obtain ⟨-, gu, es, rfl⟩ := hu
  obtain ⟨-, gw, es', rfl⟩ := hw
  exact ⟨h.cursor, h.inside, h.left, h.right, h.settled, hg, hg'⟩

/-- Both runs leave a rule, each with the state in which its body has ended. -/
theorem leaving_cursor (h : Abreast env g g' mode s t) (hc : w.cursor = u.cursor) (r : RuleId)
    (o : Outcome Value) :
    (t.leaving env r o w).cursor = (s.leaving env r o u).cursor := by
  cases o with
  | matched stop v => exact hc
  | failed =>
    change min t.cursor env.length = min s.cursor env.length
    rw [h.cursor]

end Abreast

/-- What the bodies of a rule in two grammars are: both none, or one with a fault, or expressions of
which the second mirrors the first. -/
def BodiesMirror (env : Env) (g g' : Grammar) (n k : Nat) (r : RuleId) : Prop :=
  ((g.body r).Means none ∧ (g'.body r).Means none) ∨
  (∃ f, (g.body r).Means (some (.error f))) ∨
  ∃ x x', (g.body r).Means (some (.ok x)) ∧ (g'.body r).Means (some (.ok x')) ∧
    Mirrors (Abreast env g g' (g.skipsBlanks r)) (x.matcher env (callRule env n))
      (x'.matcher env (callRule env k))

/-- The work behind a rule is done side by side if its bodies are evaluated so. -/
theorem BodiesMirror.produce {n k : Nat} {o : Outcome Value} (hb : BodiesMirror env g g' n k r)
    (hr : g'.skipsBlanks r = g.skipsBlanks r) (h : Abreast env g g' mode s t)
    (hp : Packrat.produce env (n + 1) (.rule r) s = .ok o u) :
    ∃ w, Packrat.produce env (k + 1) (.rule r) t = .ok o w ∧ w.cursor = u.cursor ∧
      g.Upholds u.grammar ∧ g'.Upholds w.grammar := by
  have he := h.entering hr
  rw [produce_succ] at hp ⊢
  rcases hb with ⟨hnone, hnone'⟩ | ⟨f, hf⟩ | ⟨x, x', hx, hx', hm⟩
  · have hs := he.upholds.body? hnone
    have ht := he.upholds'.body? hnone'
    dsimp only at hs ht
    rw [hs] at hp
    rw [ht]
    cases hp
    exact ⟨_, rfl, h.leaving_cursor he.cursor r .failed, he.upholds, he.upholds'⟩
  · obtain ⟨u', hu'⟩ := he.upholds.body? hf
    rw [hu'] at hp
    cases hp
  · obtain ⟨u', hu', hru, hgu⟩ := he.upholds.body? hx
    obtain ⟨w', hw', hrw, hgw⟩ := he.upholds'.body? hx'
    rw [hu'] at hp
    rw [hw']
    dsimp only at hp ⊢
    have hbegin := he.of_rebuilt hru hrw hgu hgw
    cases hrun : (x.dialogue env u').run (answer env n) with
    | error e v => rw [hrun] at hp; cases hp
    | ok o' v =>
      rw [hrun] at hp
      rw [answer, ← x.matcher_eq_run] at hrun
      obtain ⟨v', hrun', hend⟩ := hm u' w' o' v hbegin hrun
      rw [x'.matcher_eq_run] at hrun'
      cases hp
      refine ⟨t.leaving env r o v', by rw [answer, hrun'], h.leaving_cursor hend.cursor r o, ?_, ?_⟩
      · rw [State.leaving_grammar]
        exact hend.upholds
      · rw [State.leaving_grammar]
        exact hend.upholds'

theorem exists_produce_of_answer {n : Nat} (key : Key) {o : Outcome Value}
    (h : answer env.reference n key s = .ok o t) :
    ∃ o' u, produce env.reference n key (s.opened key) = .ok o' u := by
  rw [answer_reference] at h
  cases hr : produce env.reference n key (s.opened key) with
  | error e u => rw [hr] at h; cases h
  | ok o' u => exact ⟨o', u, rfl⟩

/-- A rule mirrors itself in another grammar if its body there mirrors the one here. -/
theorem mirrors_rule {n k : Nat} (hr : g'.skipsBlanks r = g.skipsBlanks r)
    (hb : BodiesMirror env.reference g g' n k r) : Mirrors (Abreast env.reference g g' mode)
      (callRule env.reference (n + 1) r) (callRule env.reference (k + 1) r) := by
  intro s t o u h ha
  change answer env.reference (n + 1) (.rule r) s = _ at ha
  have hopen : Abreast env.reference g g' mode (s.opened (.rule r)) (t.opened (.rule r)) :=
    h.of_stays (.opened s _) (.opened t _)
  obtain ⟨o', s', hp⟩ := exists_produce_of_answer (.rule r) ha
  obtain ⟨t', hp', hc, hg, hg'⟩ := hb.produce hr hopen hp
  exact h.answered (.rule r) hp hp' hc hg hg' ha

/-- Without room a rule comes to nothing that would have to be mirrored. -/
theorem mirrors_rule_zero (call : Matcher) :
    Mirrors (Abreast env.reference g g' mode) (callRule env.reference 0 r) call := by
  intro s t o u h ha
  change answer env.reference 0 (.rule r) s = _ at ha
  obtain ⟨o', s', hp⟩ := exists_produce_of_answer (.rule r) ha
  cases hp

/-! ## Expressions -/

section

variable {P : RuleId → Prop} {call call' : RuleId → Matcher}

theorem Expr.Within.step {label : String} {type : ValueType} {steps : List (Step Expr)}
    {build : Hook Slots (Except Fault Value)} (h : (sequenceAs label type steps build).Within P)
    (step : Step Expr) (hmem : step ∈ steps) : step.body.Within P :=
  fun r hr => h r (Expr.refers_sequence.mpr ⟨step, hmem, hr⟩)

theorem Expr.Within.alternative {label : String} {xs : List Expr} (h : (choiceAs label xs).Within P)
    (x : Expr) (hmem : x ∈ xs) : x.Within P :=
  fun r hr => h r (Expr.refers_choice.mpr ⟨x, hmem, hr⟩)

mutual

/-- An expression mirrors itself where the rules in it and the built-in classes do. -/
theorem Expr.mirrored (hcall : ∀ r, P r → Mirrors (Abreast env g g' mode) (call r) (call' r))
    (hbuiltin : ∀ c, Mirrors (Abreast env g g' mode) (Matcher.builtin env c)
      (Matcher.builtin env c)) (x : Expr) (hx : x.Within P) :
    Mirrors (Abreast env g g' mode) (x.matcher env call) (x.matcher env call') := by
  cases x with
  | builtin c => exact hbuiltin c
  | char test => exact mirrors_char test
  | literal length test => exact mirrors_literal length test
  | empty =>
    intro s t o u h hr
    cases hr
    exact ⟨t, by rw [matcher, Matcher.run_succeed, h.cursor], h⟩
  | fail message =>
    intro s t o u h hr
    cases hr
    exact ⟨_, rfl, h.of_stays ⟨rfl, rfl, rfl⟩ ⟨rfl, rfl, rfl⟩⟩
  | position =>
    intro s t o u h hr
    cases hr
    exact ⟨t, by rw [matcher, Matcher.run_position, h.cursor], h⟩
  | rule r => exact hcall r (hx r rfl)
  | optionalAs label x => exact Matcher.mirrors_optional (x.mirrored hcall hbuiltin hx)
  | repeatedAs label x count =>
    exact Matcher.mirrors_repeated (x.mirrored hcall hbuiltin hx) label label count
  | lookaheadAs label negated x =>
    exact Matcher.mirrors_lookahead (x.mirrored hcall hbuiltin hx) label label negated
  | sequenceAs label type steps build =>
    exact Matcher.mirrors_sequence (steps_mirrored hcall hbuiltin steps hx.step) label label build
  | choiceAs label xs =>
    exact Matcher.mirrors_choice (alternatives_mirrored hcall hbuiltin xs hx.alternative) label
      label
  | map type f x => exact Matcher.mirrors_map (x.mirrored hcall hbuiltin hx) f

theorem Expr.steps_mirrored
    (hcall : ∀ r, P r → Mirrors (Abreast env g g' mode) (call r) (call' r))
    (hbuiltin : ∀ c, Mirrors (Abreast env g g' mode) (Matcher.builtin env c)
      (Matcher.builtin env c)) (steps : List (Step Expr))
    (hsteps : ∀ step ∈ steps, step.body.Within P) :
    List.Forall₂ (fun step step' => step.store = step'.store ∧
      Mirrors (Abreast env g g' mode) step.body step'.body) (stepMatchers env call steps)
      (stepMatchers env call' steps) := by
  cases steps with
  | nil => exact .nil
  | cons step rest =>
    obtain ⟨x, store⟩ := step
    rw [stepMatchers, stepMatchers]
    refine .cons ⟨rfl, x.mirrored hcall hbuiltin (hsteps _ List.mem_cons_self)⟩ ?_
    exact steps_mirrored hcall hbuiltin rest fun step hmem =>
      hsteps step (List.mem_cons_of_mem _ hmem)

theorem Expr.alternatives_mirrored
    (hcall : ∀ r, P r → Mirrors (Abreast env g g' mode) (call r) (call' r))
    (hbuiltin : ∀ c, Mirrors (Abreast env g g' mode) (Matcher.builtin env c)
      (Matcher.builtin env c)) (xs : List Expr) (hxs : ∀ x ∈ xs, x.Within P) :
    List.Forall₂ (Mirrors (Abreast env g g' mode)) (matchers env call xs)
      (matchers env call' xs) := by
  cases xs with
  | nil => exact .nil
  | cons x rest =>
    rw [matchers, matchers]
    refine .cons (x.mirrored hcall hbuiltin (hxs x List.mem_cons_self)) ?_
    exact alternatives_mirrored hcall hbuiltin rest fun x hmem =>
      hxs x (List.mem_cons_of_mem _ hmem)

end

end

end

end Packrat
