import Mathlib.Data.Fintype.Card
import Netknot.Lib.Machine

/-!
# Counted References Under Interleaving

An object with a counter of the references to it, and holders that take references and drop
them in any order. A holder takes a reference from one that has one. Dropping it is not one
step: the counter is lowered; the holder that brought it to zero destroys the object, any other
looks at the counter once more before it is done. Between the steps of one holder the others
move.

The counter is a machine word: `inc` and `dec` are its arithmetic, which is exact up to `top`,
and there are no more holders than that.

## Main results

* `runWhere_release`: the two steps of dropping a reference, with nothing in between.
* `Exact.step`, `exact_of_run`: the counter is the number of holders with a reference, and the
  object is destroyed once, by the holder that dropped the last reference.
* `Exact.settled_iff`, `exists_stale`: how long no holder looks at a destroyed object, and that
  one will when it does not wait for the others.
-/

namespace RefCount

/-- Where a holder is. -/
inductive Phase
  /-- It has no reference. -/
  | out
  /-- It has one. -/
  | holding
  /-- It has lowered the counter, not to zero; before it looks at the counter. -/
  | dropping
  /-- It has brought the counter to zero; before the object is destroyed. -/
  | last
  deriving DecidableEq, Repr

/-- The object, its counter and its holders. -/
structure Counter (H : Type*) where
  count : ℕ := 0
  phase : H → Phase := fun _ => .out
  /-- The first reference was taken. -/
  adopted : Bool := false
  /-- How often the object was destroyed. -/
  destroyed : ℕ := 0
  /-- How often a holder looked at the counter of a destroyed object. -/
  stale : ℕ := 0

/-- Which holder moves. -/
inductive Label (H : Type*)
  /-- It takes the first reference of the object. -/
  | adopt (h : H)
  /-- It takes a reference from a holder that has one. -/
  | copy (h g : H)
  /-- It lowers the counter. -/
  | drop (h : H)
  /-- It destroys the object. -/
  | destroy (h : H)
  /-- It looks at the counter. -/
  | look (h : H)
  deriving DecidableEq, Repr

variable {H : Type*} [DecidableEq H]

namespace Counter

/-- A holder moves. -/
def move (s : Counter H) (h : H) (phase : Phase) : Counter H :=
  { s with phase := Function.update s.phase h phase }

/-- The counter is raised for a holder. -/
def take (inc : ℕ → ℕ) (s : Counter H) (h : H) : Counter H :=
  { s.move h .holding with count := inc s.count, adopted := true }

/-- The counter is lowered, and tested. -/
def lower (dec : ℕ → ℕ) (s : Counter H) (h : H) : Counter H :=
  { s.move h (if dec s.count = 0 then .last else .dropping) with count := dec s.count }

/-- The object is destroyed. -/
def destroy (s : Counter H) (h : H) : Counter H :=
  { s.move h .out with destroyed := s.destroyed + 1 }

/-- The counter is read, of an object that may be destroyed. -/
def look (s : Counter H) (h : H) : Counter H :=
  { s.move h .out with stale := s.stale + if 0 < s.destroyed then 1 else 0 }

/-- One step of a holder. -/
def step (inc dec : ℕ → ℕ) (s : Counter H) : Label H → Option (Counter H)
  | .adopt h => if s.adopted = false ∧ s.phase h = .out then some (s.take inc h) else none
  | .copy h g => if s.phase h = .out ∧ s.phase g = .holding then some (s.take inc h) else none
  | .drop h => if s.phase h = .holding then some (s.lower dec h) else none
  | .destroy h => if s.phase h = .last then some (s.destroy h) else none
  | .look h => if s.phase h = .dropping then some (s.look h) else none

end Counter

/-- The object as a machine. -/
def counter (inc dec : ℕ → ℕ) (H : Type*) [DecidableEq H] : Machine (Counter H) (Label H) where
  init := {}
  step := Counter.step inc dec

/-- **A holder drops its reference in two steps**, with nothing in between. -/
theorem runWhere_release {inc dec : ℕ → ℕ} {s : Counter H} {h : H} (hh : s.phase h = .holding) :
    ∃ t, (counter inc dec H).RunWhere (fun _ _ => True) s t ∧ t.count = dec s.count ∧
      t.phase = Function.update s.phase h .out ∧
      t.destroyed = s.destroyed + if dec s.count = 0 then 1 else 0 := by
  have hdrop : (counter inc dec H).step s (.drop h) = some (s.lower dec h) := if_pos hh
  have hself : (s.lower dec h).phase h = if dec s.count = 0 then .last else .dropping :=
    Function.update_self _ _ _
  by_cases hzero : dec s.count = 0
  · rw [if_pos hzero] at hself
    have hdestroy : (counter inc dec H).step (s.lower dec h) (.destroy h) =
        some ((s.lower dec h).destroy h) := if_pos hself
    exact ⟨_, (Machine.RunWhere.single trivial hdrop).tail trivial hdestroy, rfl,
      Function.update_idem _ _ _, by rw [if_pos hzero]; rfl⟩
  · rw [if_neg hzero] at hself
    have hlook : (counter inc dec H).step (s.lower dec h) (.look h) =
        some ((s.lower dec h).look h) := if_pos hself
    exact ⟨_, (Machine.RunWhere.single trivial hdrop).tail trivial hlook, rfl,
      Function.update_idem _ _ _, by rw [if_neg hzero]; rfl⟩

/-! ### The holders with a reference -/

section

omit [DecidableEq H]

variable [Fintype H]

/-- The holders that have a reference. -/
def holders (phase : H → Phase) : Finset H := Finset.univ.filter (phase · = .holding)

theorem mem_holders {phase : H → Phase} {h : H} : h ∈ holders phase ↔ phase h = .holding := by
  simp [holders]

/-- There are holders left to take a reference. -/
theorem card_holders_lt {phase : H → Phase} {h : H} (hh : phase h ≠ .holding) :
    (holders phase).card < Fintype.card H :=
  Finset.card_lt_univ_of_notMem (mt mem_holders.mp hh)

/-- No reference is left. -/
theorem not_holding_of_card {phase : H → Phase} (h : (holders phase).card = 0) (g : H) :
    phase g ≠ .holding := by
  intro hg
  have hmem : g ∈ holders phase := mem_holders.mpr hg
  rw [Finset.card_eq_zero.mp h] at hmem
  exact Finset.notMem_empty g hmem

end

variable [Fintype H]

/-- A holder gets a reference. -/
theorem card_holders_take {phase : H → Phase} {h : H} (hh : phase h ≠ .holding) :
    (holders (Function.update phase h .holding)).card = (holders phase).card + 1 := by
  have hinsert : holders (Function.update phase h .holding) = insert h (holders phase) := by
    ext g
    by_cases heq : g = h
    · subst heq
      simp [mem_holders]
    · simp [mem_holders, heq]
  rw [hinsert, Finset.card_insert_of_notMem (mt mem_holders.mp hh)]

/-- A holder that has no reference can move without changing who holds one. -/
theorem holders_move {phase : H → Phase} {h : H} {p : Phase} (hh : phase h ≠ .holding)
    (hp : p ≠ .holding) : holders (Function.update phase h p) = holders phase := by
  ext g
  by_cases heq : g = h
  · subst heq
    simp [mem_holders, hp, hh]
  · simp [mem_holders, heq]

/-- A holder drops its reference. -/
theorem card_holders_drop {phase : H → Phase} {h : H} {p : Phase} (hh : phase h = .holding)
    (hp : p ≠ .holding) :
    (holders (Function.update phase h p)).card = (holders phase).card - 1 := by
  have herase : holders (Function.update phase h p) = (holders phase).erase h := by
    ext g
    by_cases heq : g = h
    · subst heq
      simp [mem_holders, hp]
    · simp [mem_holders, heq]
  rw [herase, Finset.card_erase_of_mem (mem_holders.mpr hh)]

/-! ### The counter is exact -/

/-- **The counter is exact**, and of an object that was adopted one thing is true: it is held;
one holder is about to destroy it; or it was destroyed once. -/
structure Exact (s : Counter H) : Prop where
  count : s.count = (holders s.phase).card
  fresh : s.adopted = false → s.destroyed = 0 ∧ ∀ h, s.phase h = .out
  held : 0 < s.count → s.destroyed = 0 ∧ ∀ h, s.phase h ≠ .last
  dead : s.adopted = true → s.count = 0 →
    s.destroyed = 0 ∧ (∃! h, s.phase h = .last) ∨ s.destroyed = 1 ∧ ∀ h, s.phase h ≠ .last

namespace Exact

variable {s t : Counter H} {h : H}

section

omit [DecidableEq H]

/-- A holder with a reference is counted. -/
theorem count_pos (hs : Exact s) (hh : s.phase h = .holding) : 0 < s.count := by
  rw [hs.count]
  exact Finset.card_pos.mpr ⟨h, mem_holders.mpr hh⟩

/-- A holder that has done anything has adopted the object, or found it adopted. -/
theorem adopted (hs : Exact s) (hh : s.phase h ≠ .out) : s.adopted = true := by
  by_contra hnot
  exact hh ((hs.fresh (Bool.eq_false_iff.mpr hnot)).2 h)

/-- Nobody destroys the object who has not dropped the last reference. -/
theorem count_eq_zero_of_last (hs : Exact s) (hh : s.phase h = .last) : s.count = 0 :=
  Nat.eq_zero_of_not_pos fun hpos => (hs.held hpos).2 h hh

/-- The object is destroyed once. -/
theorem destroyed_le_one (hs : Exact s) : s.destroyed ≤ 1 := by
  rcases Nat.eq_zero_or_pos s.count with hzero | hpos
  · by_cases hadopted : s.adopted = true
    · rcases hs.dead hadopted hzero with ⟨hd, -⟩ | ⟨hd, -⟩ <;> omega
    · have hd := (hs.fresh (Bool.eq_false_iff.mpr hadopted)).1
      omega
  · have hd := (hs.held hpos).1
    omega

end

section

variable {inc dec : ℕ → ℕ} {top : ℕ} (hinc : ∀ k < top, inc k = k + 1)
  (hdec : ∀ k, 0 < k → dec k = k - 1) (hcard : Fintype.card H ≤ top)

include hinc hcard in
/-- A holder takes a reference, of a new object or of one that is held. -/
theorem take (hs : Exact s) (hh : s.phase h = .out)
    (hlive : s.destroyed = 0 ∧ ∀ g, s.phase g ≠ .last) : Exact (s.take inc h) := by
  have hnot : s.phase h ≠ .holding := by
    rw [hh]
    decide
  have hlt : s.count < top := by
    have hroom := card_holders_lt hnot
    rw [← hs.count] at hroom
    omega
  have hcount : (s.take inc h).count = s.count + 1 := hinc _ hlt
  refine ⟨?_, fun hfresh => Bool.noConfusion hfresh, fun _ => ⟨hlive.1, fun g => ?_⟩,
    fun _ hzero => ?_⟩
  · rw [hcount, hs.count]
    exact (card_holders_take hnot).symm
  · simp only [Counter.take, Counter.move, Function.update_apply]
    split
    · decide
    · exact hlive.2 g
  · rw [hcount] at hzero
    exact absurd hzero (Nat.succ_ne_zero _)

include hdec in
/-- A holder lowers the counter. -/
theorem lower (hs : Exact s) (hh : s.phase h = .holding) : Exact (s.lower dec h) := by
  have hpos : 0 < s.count := hs.count_pos hh
  have hadopted : s.adopted = true := hs.adopted (by rw [hh]; decide)
  obtain ⟨hd, hlast⟩ := hs.held hpos
  have hcount : (s.lower dec h).count = s.count - 1 := hdec _ hpos
  have hother : ∀ g ≠ h, (s.lower dec h).phase g ≠ .last := fun g hg => by
    simpa [Counter.lower, Counter.move, hg] using hlast g
  refine ⟨?_, fun hfresh => ?_, fun hpos' => ⟨hd, fun g => ?_⟩, fun _ hzero => .inl ⟨hd, h, ?_, ?_⟩⟩
  · rw [hcount, hs.count]
    refine (card_holders_drop hh ?_).symm
    split <;> decide
  · exact Bool.noConfusion (hadopted.symm.trans hfresh)
  · by_cases hg : g = h
    · subst hg
      have hne : dec s.count ≠ 0 := Nat.ne_of_gt hpos'
      simp [Counter.lower, Counter.move, hne]
    · exact hother g hg
  · have hlow : dec s.count = 0 := hzero
    simp [Counter.lower, Counter.move, hlow]
  · intro g hg
    by_contra hne
    exact hother g hne hg

/-- The holder that dropped the last reference destroys the object. -/
theorem destroy (hs : Exact s) (hh : s.phase h = .last) : Exact (s.destroy h) := by
  have hzero : s.count = 0 := hs.count_eq_zero_of_last hh
  have hadopted : s.adopted = true := hs.adopted (by rw [hh]; decide)
  have hone : s.destroyed = 0 ∧ ∃! g, s.phase g = .last := by
    rcases hs.dead hadopted hzero with hone | ⟨-, hnone⟩
    · exact hone
    · exact absurd hh (hnone h)
  obtain ⟨hd, hunique⟩ := hone
  refine ⟨?_, fun hfresh => ?_, fun hpos => ?_, fun _ _ => .inr ⟨?_, fun g => ?_⟩⟩
  · refine hs.count.trans (congrArg Finset.card (holders_move ?_ (by decide)).symm)
    rw [hh]
    decide
  · exact Bool.noConfusion (hadopted.symm.trans hfresh)
  · exact absurd hzero (Nat.ne_of_gt hpos)
  · simp [Counter.destroy, hd]
  · simp only [Counter.destroy, Counter.move, Function.update_apply]
    split
    · decide
    · rename_i hg
      exact fun hlast => hg (hunique.unique hlast hh)

/-- A holder that lowered the counter is done. -/
theorem look (hs : Exact s) (hh : s.phase h = .dropping) : Exact (s.look h) := by
  have hadopted : s.adopted = true := hs.adopted (by rw [hh]; decide)
  have hlast : ∀ g, (s.look h).phase g = .last ↔ s.phase g = .last := by
    intro g
    by_cases hg : g = h
    · subst hg
      simp [Counter.look, Counter.move, hh]
    · simp [Counter.look, Counter.move, hg]
  refine ⟨?_, fun hfresh => ?_, fun hpos => ?_, fun _ hzero => ?_⟩
  · refine hs.count.trans (congrArg Finset.card (holders_move ?_ (by decide)).symm)
    rw [hh]
    decide
  · exact Bool.noConfusion (hadopted.symm.trans hfresh)
  · exact ⟨(hs.held hpos).1, fun g => mt (hlast g).mp ((hs.held hpos).2 g)⟩
  · have hdead := hs.dead hadopted hzero
    simp only [ne_eq, ← hlast] at hdead
    exact hdead

include hinc hdec hcard in
/-- **The step lemma**: every step keeps the counter exact. -/
theorem step {l : Label H} (hs : Exact s) (hstep : s.step inc dec l = some t) : Exact t := by
  cases l with
  | adopt h =>
      obtain ⟨⟨hfresh, hh⟩, rfl⟩ :=
        Option.ite_none_right_eq_some.mp hstep |>.imp_right Option.some.inj
      obtain ⟨hd, hout⟩ := hs.fresh hfresh
      exact hs.take hinc hcard hh ⟨hd, fun g => by rw [hout g]; decide⟩
  | copy h g =>
      obtain ⟨⟨hh, hg⟩, rfl⟩ :=
        Option.ite_none_right_eq_some.mp hstep |>.imp_right Option.some.inj
      exact hs.take hinc hcard hh (hs.held (hs.count_pos hg))
  | drop h =>
      obtain ⟨hh, rfl⟩ := Option.ite_none_right_eq_some.mp hstep |>.imp_right Option.some.inj
      exact hs.lower hdec hh
  | destroy h =>
      obtain ⟨hh, rfl⟩ := Option.ite_none_right_eq_some.mp hstep |>.imp_right Option.some.inj
      exact hs.destroy hh
  | look h =>
      obtain ⟨hh, rfl⟩ := Option.ite_none_right_eq_some.mp hstep |>.imp_right Option.some.inj
      exact hs.look hh

end

end Exact

omit [DecidableEq H] in
/-- The counter of a new object is exact. -/
theorem exact_init : Exact ({} : Counter H) where
  count := (Finset.card_eq_zero.mpr
    (Finset.filter_eq_empty_iff.mpr fun _ _ => Phase.noConfusion)).symm
  fresh := fun _ => ⟨rfl, fun _ => rfl⟩
  held := fun hpos => absurd hpos (Nat.lt_irrefl 0)
  dead := fun hadopted => Bool.noConfusion hadopted

section

variable {inc dec : ℕ → ℕ} {top : ℕ} (hinc : ∀ k < top, inc k = k + 1)
  (hdec : ∀ k, 0 < k → dec k = k - 1) (hcard : Fintype.card H ≤ top)

include hinc hdec hcard

/-- **In every run** the counter is exact. -/
theorem exact_of_run {G : Counter H → Label H → Prop} {s : Counter H}
    (h : (counter inc dec H).RunWhere G (counter inc dec H).init s) : Exact s :=
  h.invariant exact_init fun _ _ _ hs _ hstep => hs.step hinc hdec hcard hstep

end

/-! ### Looking at a destroyed object -/

/-- **No holder looks at a destroyed object**, now or later: none has, and once it is destroyed
none has still to look. -/
def Counter.Undisturbed (s : Counter H) : Prop :=
  s.stale = 0 ∧ (0 < s.destroyed → ∀ h, s.phase h ≠ .dropping)

/-- **The step condition**: the object is destroyed when no holder has still to look. -/
def Counter.Settled (s : Counter H) : Label H → Prop
  | .destroy _ => ∀ g, s.phase g ≠ .dropping
  | _ => True

instance (s : Counter H) (l : Label H) : Decidable (s.Settled l) :=
  match l with
  | .destroy _ => inferInstanceAs (Decidable (∀ g, s.phase g ≠ .dropping))
  | .adopt _ | .copy _ _ | .drop _ | .look _ => inferInstanceAs (Decidable True)

omit [Fintype H] in
/-- A step that does not meet the condition leaves a holder that has nothing left to do but look
at the destroyed object. -/
theorem exists_stale {inc dec : ℕ → ℕ} {s t : Counter H} {l : Label H}
    (hstep : s.step inc dec l = some t) (hl : ¬s.Settled l) :
    ∃ g u, t.phase g = .dropping ∧ t.step inc dec (.look g) = some u ∧ u.stale = s.stale + 1 := by
  cases l with
  | destroy h =>
      obtain ⟨hh, rfl⟩ := Option.ite_none_right_eq_some.mp hstep |>.imp_right Option.some.inj
      obtain ⟨g, hg⟩ := not_forall_not.mp hl
      have hne : g ≠ h := by
        rintro rfl
        exact absurd (hg.symm.trans hh) (by decide)
      have hphase : (s.destroy h).phase g = .dropping :=
        (Function.update_of_ne hne _ _).trans hg
      refine ⟨g, (s.destroy h).look g, hphase, if_pos hphase, ?_⟩
      have hdestroyed : 0 < (s.destroy h).destroyed := Nat.succ_pos _
      simp only [Counter.look, if_pos hdestroyed]
      rfl
  | adopt h | copy h g | drop h | look h => exact absurd trivial hl

/-- **How long no holder looks at a destroyed object**: as long as it is destroyed when no
holder has still to look. -/
theorem Exact.settled_iff {inc dec : ℕ → ℕ} {s t : Counter H} {l : Label H} (hs : Exact s)
    (h : s.Undisturbed) (hstep : s.step inc dec l = some t) : t.Undisturbed ↔ s.Settled l := by
  obtain ⟨hstale, hdone⟩ := h
  cases l with
  | adopt h =>
      obtain ⟨⟨hfresh, hh⟩, rfl⟩ :=
        Option.ite_none_right_eq_some.mp hstep |>.imp_right Option.some.inj
      refine iff_of_true ⟨hstale, fun hd => ?_⟩ trivial
      exact absurd (hs.fresh hfresh).1 (Nat.ne_of_gt hd)
  | copy h g =>
      obtain ⟨⟨hh, hg⟩, rfl⟩ :=
        Option.ite_none_right_eq_some.mp hstep |>.imp_right Option.some.inj
      refine iff_of_true ⟨hstale, fun hd => ?_⟩ trivial
      exact absurd (hs.held (hs.count_pos hg)).1 (Nat.ne_of_gt hd)
  | drop h =>
      obtain ⟨hh, rfl⟩ := Option.ite_none_right_eq_some.mp hstep |>.imp_right Option.some.inj
      refine iff_of_true ⟨hstale, fun hd => ?_⟩ trivial
      exact absurd (hs.held (hs.count_pos hh)).1 (Nat.ne_of_gt hd)
  | destroy h =>
      obtain ⟨hh, rfl⟩ := Option.ite_none_right_eq_some.mp hstep |>.imp_right Option.some.inj
      have hphase : (∀ g, (s.destroy h).phase g ≠ .dropping) ↔ ∀ g, s.phase g ≠ .dropping := by
        refine forall_congr' fun g => not_congr ?_
        by_cases hg : g = h
        · subst hg
          simp [Counter.destroy, Counter.move, hh]
        · simp [Counter.destroy, Counter.move, hg]
      rw [Counter.Settled, ← hphase]
      exact ⟨fun hu => hu.2 (Nat.succ_pos _), fun hall => ⟨hstale, fun _ => hall⟩⟩
  | look h =>
      obtain ⟨hh, rfl⟩ := Option.ite_none_right_eq_some.mp hstep |>.imp_right Option.some.inj
      have hd : ¬0 < s.destroyed := fun hd => hdone hd h hh
      refine iff_of_true ⟨?_, fun hd' => absurd hd' hd⟩ trivial
      simp [Counter.look, hstale, hd]

end RefCount
