import Mathlib
import Workflow.Proofs.Disk.Growth
import Workflow.Proofs.Install.Runs

/-!
# Making a directory beside others

The making of a directory that others may make at the same time. It is promising (`Making.Promising`) when each directory on the
list can be made with those above it; it stays so when directories of the way appear (`Promising.of_grows`), and every step brings
it nearer to its end (`Promising.step`). A job that succeeds alone begins with such a making (`Install.run_making`).
-/

namespace Workflow

open Disk

namespace Making

variable {d d' : Disk} {places : List Spot} {n : Nat} {m : Making}

/-- After a failure a making has failed, or the directory that was missing its parent is tried again, with the parent made before if
that has a name. -/
theorem after_error (m : Making) (e : FileError) :
    m.after (.error e) = .failed e ∨ e = .noEntry ∧ m.retried = false ∧ ∃ above, m.current.parent? = some above ∧
      (above.isNone = true ∧ m.after (.error e) = .more { m with retried := true } ∨
        above.isNone = false ∧ m.after (.error e) = .more ⟨above, false, m.current :: m.outer⟩) := by
  rw [after]
  split
  · next hmissing =>
    cases habove : m.current.parent? with
    | none => exact Or.inl rfl
    | some above =>
      refine Or.inr ⟨hmissing.1, hmissing.2, above, rfl, ?_⟩
      cases hsome : above.isNone with
      | true => exact Or.inl ⟨rfl, by simp only [hsome, if_true]⟩
      | false => exact Or.inr ⟨rfl, by simp only [hsome, Bool.false_eq_true, if_false]⟩
  · exact Or.inl rfl

/-- The directories of a making can be made, in less than so many steps: each is the one that the next stands in, and all stay on
the way. -/
structure Promising (places : List Spot) (n : Nat) (d : Disk) (m : Making) : Prop where
  top : d.stand? [] = some .dir
  stays : ∀ p ∈ m.paths, Stays d (· ∈ places) p
  chain : m.paths.IsChain fun above p => p.parent? = some above
  makes : ∀ p ∈ m.paths, ∃ tries made, Makes tries d p made
  next : if m.retried then m.outer.length < n ∧ ∃ made, ensureDir d m.current = .ok made
    else ∃ tries made, Makes tries d m.current made ∧ 2 * tries + m.outer.length < n

namespace Promising

/-- A making stays promising when directories of the way appear. -/
theorem of_grows (h : m.Promising places n d) (htop : d'.stand? [] = some .dir) (hgrows : Grows places d d') :
    m.Promising places n d' := by
  have hmakes : ∀ p ∈ m.paths, ∀ tries made, Makes tries d p made → ∃ made, Makes tries d' p made := by
    intro p hp tries made hmade
    obtain ⟨way, goal, htrail, hway⟩ := h.stays p hp
    exact hmade.of_grows h.top htrail (fun s hs => hway s hs) htop hgrows
  refine ⟨htop, fun p hp => ?_, h.chain, fun p hp => ?_, ?_⟩
  · obtain ⟨way, goal, htrail, hway⟩ := h.stays p hp
    exact ⟨way, goal, Grows.trail (fun s hs => hgrows s (hway s hs)) htrail, hway⟩
  · obtain ⟨tries, made, hmade⟩ := h.makes p hp
    exact ⟨tries, hmakes p hp tries made hmade⟩
  · have hnext := h.next
    split at hnext
    · next hretried =>
      obtain ⟨hlength, made, hmade⟩ := hnext
      obtain ⟨way, goal, htrail, hway⟩ := h.stays m.current List.mem_cons_self
      rw [if_pos hretried]
      exact ⟨hlength, htrail.ensureDir_of_grows (fun s hs => hway s hs) h.top htop hgrows hmade⟩
    · next hretried =>
      obtain ⟨tries, made, hmade, hlength⟩ := hnext
      obtain ⟨made', hmade'⟩ := hmakes m.current List.mem_cons_self tries made hmade
      rw [if_neg hretried]
      exact ⟨tries, made', hmade', hlength⟩

/-- After a directory has been made, the next one can be made at once. -/
theorem goOn {current : Path} {retried : Bool} {next : Path} {outer : List Path} {made : Disk}
    (h : Promising places (n + 1) d ⟨current, retried, next :: outer⟩) (hmade : ensureDir d current = .ok made) :
    Promising places n made ⟨next, true, outer⟩ := by
  obtain ⟨way, goal, htrail, hway⟩ := h.stays current List.mem_cons_self
  obtain ⟨left, hleads⟩ := htrail.leads_of_ensureDir h.top hmade
  have hextends := htrail.extends_of_ensureDir h.top hmade
  have hgrown := h.of_grows (hextends.top h.top) (hextends.grows places)
  obtain ⟨hparent, hchain⟩ := List.isChain_cons_cons.mp h.chain
  have hnext : next ∈ Making.paths ⟨current, retried, next :: outer⟩ := List.mem_cons_of_mem _ List.mem_cons_self
  refine ⟨hgrown.top, fun p hp => hgrown.stays p (List.mem_cons_of_mem _ hp), hchain,
    fun p hp => hgrown.makes p (List.mem_cons_of_mem _ hp), ?_⟩
  rw [if_pos rfl]
  constructor
  · have hlength := h.next
    have hcons : (next :: outer).length = outer.length + 1 := List.length_cons
    change outer.length < n
    split at hlength
    · have hshort : (next :: outer).length < n + 1 := hlength.1
      omega
    · obtain ⟨tries, -, -, hshort⟩ := hlength
      change 2 * tries + (next :: outer).length < n + 1 at hshort
      omega
  · obtain ⟨tries, made', hmakes⟩ := hgrown.makes next hnext
    obtain ⟨way', goal', htrail', -⟩ := hgrown.stays next hnext
    exact hmakes.exists_ensureDir hgrown.top htrail' hparent hleads

/-- A promising making takes a step. -/
theorem pos (h : m.Promising places n d) : 0 < n := by
  have hnext := h.next
  split at hnext
  · exact Nat.zero_lt_of_lt hnext.1
  · obtain ⟨tries, made, -, hlength⟩ := hnext
    exact Nat.zero_lt_of_lt hlength

/-- A promising making goes on: its next directory is made, or the one that this stands in is missing and comes first. -/
theorem step (h : m.Promising places n d) :
    (∃ made, ensureDir d m.current = .ok made ∧ Extends places d made ∧
      (m.paths = [m.current] ∧ m.after (.ok ()) = .made ∨ ∃ m', m.after (.ok ()) = .more m' ∧ m'.Promising places (n - 1) made)) ∨
    ensureDir d m.current = .error .noEntry ∧
      ∃ m', m.after (.error .noEntry) = .more m' ∧ m'.Promising places (n - 1) d := by
  obtain ⟨current, retried, outer⟩ := m
  obtain ⟨n, rfl⟩ := Nat.exists_eq_succ_of_ne_zero (Nat.ne_of_gt h.pos)
  rw [Nat.succ_sub_one]
  obtain ⟨way, goal, htrail, hway⟩ := h.stays current List.mem_cons_self
  by_cases hmade : ∃ made, ensureDir d current = .ok made
  · obtain ⟨made, hmade⟩ := hmade
    refine Or.inl ⟨made, hmade, (htrail.extends_of_ensureDir h.top hmade).mono fun s hs => hway s hs, ?_⟩
    cases outer with
    | nil => exact Or.inl ⟨rfl, rfl⟩
    | cons next outer => exact Or.inr ⟨_, rfl, h.goOn hmade⟩
  · have hnext := h.next
    split at hnext
    · exact absurd hnext.2 hmade
    · next hretried =>
      obtain ⟨tries, made, hmakes, hlength⟩ := hnext
      obtain rfl : retried = false := Bool.eq_false_iff.mpr hretried
      cases hmakes with
      | direct hdirect => exact absurd ⟨_, hdirect⟩ hmade
      | @through tries _ above_made _ _ above hmissing habove hsome hmakes _ =>
        refine Or.inr ⟨hmissing, ⟨above, false, current :: outer⟩, ?_, h.top, ?_, ?_, ?_, ?_⟩
        · simp only [after, and_self, if_true, habove, hsome, Bool.false_eq_true, if_false]
        · exact List.forall_mem_cons.mpr ⟨(h.stays current List.mem_cons_self).parent habove hsome, h.stays⟩
        · exact List.isChain_cons_cons.mpr ⟨habove, h.chain⟩
        · exact List.forall_mem_cons.mpr ⟨⟨tries, above_made, hmakes⟩, h.makes⟩
        · have hcons : (current :: outer).length = outer.length + 1 := List.length_cons
          change 2 * (tries + 1) + outer.length < n + 1 at hlength
          refine (if_neg Bool.false_ne_true).mpr ⟨tries, above_made, hmakes, ?_⟩
          change 2 * tries + (current :: outer).length < n
          omega

end Promising

end Making

/-! ## Runs that begin with a making -/

namespace Install

variable {j : Job} {d ending : Disk} {paths : List Path} {steps : Nat}

/-- A run begins with a step. -/
theorem run_succ (j : Job) (steps : Nat) (d : Disk) (phase : Phase) :
    run j (steps + 1) d phase = run j steps (step j none d phase).1 (step j none d phase).2 := by
  rw [run_eq_disturbed, run_eq_disturbed]
  rfl

/-- Nothing more happens when a job is finished. -/
theorem run_finished (j : Job) (steps : Nat) (d : Disk) (result : Except InstallError (List Path)) :
    run j steps d (.finished result) = (d, .finished result) := by
  cases steps <;> rfl

/-- A directory that is tried again is made, if the job succeeds. -/
theorem run_retried {p : Path} {outer : List Path}
    (h : run j steps d (.makingTarget ⟨p, true, outer⟩) = (ending, .finished (.ok paths))) :
    ∃ made rest, rest < steps ∧ ensureDir d p = .ok made ∧
      run j rest made (.after j (.ok ()) (.makingTarget ⟨p, true, outer⟩)) = (ending, .finished (.ok paths)) := by
  cases steps with
  | zero => cases h
  | succ steps =>
    rw [run_succ, step] at h
    simp only [Phase.action?, perform_eq, outcome] at h
    cases hmade : ensureDir d p with
    | ok made =>
      rw [hmade] at h
      exact ⟨made, steps, Nat.lt_succ_self steps, rfl, h⟩
    | error e =>
      rw [hmade] at h
      have hfailed : Phase.after j (.error e) (.makingTarget ⟨p, true, outer⟩) = .finished (.error (.io j.dir e)) := by
        simp [Phase.after, Making.after]
      simp only [hfailed, run_finished] at h
      cases h

/-- A job that succeeds makes its directory with those above it, and then goes on. -/
theorem run_making {p : Path} {outer : List Path}
    (h : run j steps d (.makingTarget ⟨p, false, outer⟩) = (ending, .finished (.ok paths))) :
    ∃ tries made rest, rest < steps ∧ Makes tries d p made ∧
      run j rest made (.after j (.ok ()) (.makingTarget ⟨p, false, outer⟩)) = (ending, .finished (.ok paths)) := by
  induction steps using Nat.strong_induction_on generalizing d p outer with
  | _ steps ih =>
    cases steps with
    | zero => cases h
    | succ steps =>
      rw [run_succ, step] at h
      simp only [Phase.action?, perform_eq, outcome] at h
      cases hmade : ensureDir d p with
      | ok made =>
        rw [hmade] at h
        exact ⟨0, made, steps, Nat.lt_succ_self steps, .direct hmade, h⟩
      | error e =>
        rw [hmade] at h
        simp only at h
        rcases Making.after_error ⟨p, false, outer⟩ e with hafter | ⟨rfl, -, above, habove, ⟨-, hafter⟩ | ⟨hsome, hafter⟩⟩
        · rw [Phase.after, hafter] at h
          rw [run_finished] at h
          cases h
        · -- The path has no directory above: it is tried again and fails again.
          rw [Phase.after, hafter] at h
          obtain ⟨made, -, -, hmade', -⟩ := run_retried h
          cases hmade.symm.trans hmade'
        · rw [Phase.after, hafter] at h
          obtain ⟨tries, made, rest, hrest, hmakes, h⟩ := ih steps (Nat.lt_succ_self steps) h
          obtain ⟨made', rest', hrest', hmade', h⟩ := run_retried h
          exact ⟨tries + 1, made', rest', by omega, .through hmade habove hsome hmakes hmade', h⟩

end Install

end Workflow
