import SvgWorkbench.Proofs.Session.Reversal

/-!
# Limits of the history and machine words

A history that keeps some number of steps keeps one text more than that, and this number is computed
in machine words. It wraps round for the largest word and for no other limit. Where it does, every
text that is committed is dropped with all the others; otherwise the text that has been committed is
the present one, and the one before is one step back.

The laws of committing hold for any number of texts that is kept, and so for words of any width.
-/

namespace SvgWorkbench

namespace History

variable {w : ℕ}

/-! ## Limits in machine words -/

/-- The number of texts that goes with a limit, in words of some width. -/
def capacityOf (limit : BitVec w) : ℕ := (limit + 1).toNat

theorem capacity_eq_capacityOf (h : History) : h.capacity = capacityOf h.limit.toBitVec := rfl

theorem toNat_ne_zero {limit : BitVec w} (hlimit : limit ≠ 0) : limit.toNat ≠ 0 :=
  fun hzero ↦ hlimit (BitVec.eq_of_toNat_eq (by simpa using hzero))

/-- **The number of texts is the one after the limit, unless the limit is the largest word**; then
it is zero. -/
theorem capacityOf_eq {limit : BitVec w} (hlimit : limit ≠ 0) :
    capacityOf limit = if limit = BitVec.allOnes w then 0 else limit.toNat + 1 := by
  have hone : (1 : BitVec w).toNat = 1 := by
    have hwidth := lt_of_le_of_lt (Nat.one_le_iff_ne_zero.2 (toNat_ne_zero hlimit)) limit.isLt
    exact (BitVec.toNat_ofNat 1 w).trans (Nat.mod_eq_of_lt hwidth)
  have hlargest : (BitVec.allOnes w).toNat + 1 = 2 ^ w := by
    rw [BitVec.toNat_allOnes, Nat.sub_add_cancel Nat.one_le_two_pow]
  rw [capacityOf, BitVec.toNat_add, hone]
  split
  · next hwraps => rw [hwraps, hlargest, Nat.mod_self]
  · next hfits =>
    have hne : limit.toNat + 1 ≠ 2 ^ w := fun heq ↦
      hfits (BitVec.eq_of_toNat_eq (Nat.succ_injective (heq.trans hlargest.symm)))
    exact Nat.mod_eq_of_lt (lt_of_le_of_ne limit.isLt hne)

/-- Two texts are kept unless the limit is the largest word. -/
theorem two_le_capacityOf_iff {limit : BitVec w} (hlimit : limit ≠ 0) :
    2 ≤ capacityOf limit ↔ limit ≠ BitVec.allOnes w := by
  have hpos := toNat_ne_zero hlimit
  rw [capacityOf_eq hlimit]
  split
  · next hwraps => exact iff_of_false (by omega) (not_not.2 hwraps)
  · next hfits => exact iff_of_true (by omega) hfits

theorem capacityOf_eq_iff {limit : BitVec w} (hlimit : limit ≠ 0) :
    capacityOf limit = limit.toNat + 1 ↔ limit ≠ BitVec.allOnes w := by
  rw [capacityOf_eq hlimit]
  split
  · next hwraps => exact iff_of_false (by omega) (not_not.2 hwraps)
  · next hfits => exact iff_of_true rfl hfits

end History

namespace Session

open History

variable {w : ℕ} {config : Config} {text : String} {s : Session}

/-- A session starts with a history of one text, which keeps what goes with the limit. -/
private theorem history_openText (hlimit : config.historyLimit ≠ 0)
    (hopen : openText config text = .ok s) :
    s.history = { entries := [text], limit := config.historyLimit } := by
  obtain ⟨components, -, rfl⟩ := exists_of_openText hopen
  show (History.ofLimit config.historyLimit).reset text = _
  rw [History.ofLimit, if_neg hlimit]
  rfl

theorem historyLimit_ne_zero {given : Config} (hvalid : given.validated = .ok config) :
    config.historyLimit ≠ 0 := by
  rw [Config.validated] at hvalid
  split at hvalid
  · cases hvalid
  · split at hvalid
    · cases hvalid
    · next hne =>
      cases hvalid
      exact hne

/-- No action changes the number of texts that are kept. -/
private theorem capacity_run (s : Session) (actions : List Action) :
    (s.run actions).history.capacity = s.history.capacity :=
  run_invariant (P := fun t ↦ t.history.capacity = s.history.capacity)
    (fun a _ t h ↦ (step_perform t a).capacity_eq.trans h) rfl

/-- In a session that has been opened with a limit that does not wrap round, every text can be
committed after any actions. -/
private theorem records_run (hopen : openText config text = .ok s)
    (hlimit : config.historyLimit.toNat + 1 < UInt64.size) (actions : List Action) (code : String) :
    (s.run actions).history.Records History.record code := by
  have hsteady := (isSteady_openText hopen hlimit).run actions
  rw [records_record_iff]
  by_cases hcurrent : (s.run actions).history.current? = some code
  · exact records_of_current? hcurrent
  · exact (records_recordWithin_iff hsteady.tidy.sound.index_lt hcurrent).2 hsteady.capacity

/-- **Recording is not broken by any limit but the largest word.** In words of any width, a limit of
at least one wraps round exactly if it is the largest word, and exactly then another text cannot be
committed to a history that has a present one. So it is in every session that has been opened with
settings that the editor can work with, after any actions. -/
theorem records_iff {limit : BitVec w} (hlimit : limit ≠ 0) {given : Config}
    (hvalid : given.validated = .ok config) (hopen : openText config text = .ok s) :
    (capacityOf limit = limit.toNat + 1 ↔ limit ≠ BitVec.allOnes w) ∧
    (∀ (h : History) (code : String), h.index < h.entries.length → h.current? ≠ some code →
      (h.Records (recordWithin (capacityOf limit)) code ↔ limit ≠ BitVec.allOnes w)) ∧
    ((∀ actions code, (s.run actions).history.Records History.record code ∧
        (s.run actions).history.capacity = config.historyLimit.toNat + 1) ↔
      config.historyLimit.toNat + 1 < UInt64.size) := by
  refine ⟨capacityOf_eq_iff hlimit, fun h code hindex hne ↦
    (records_recordWithin_iff hindex hne).trans (two_le_capacityOf_iff hlimit), ?_⟩
  have hhistory := history_openText (historyLimit_ne_zero hvalid) hopen
  have hcapacity : s.history.capacity = (config.historyLimit.toNat + 1) % UInt64.size := by
    rw [hhistory, capacity, UInt64.toNat_add]
    rfl
  refine ⟨fun hrecords ↦ ?_, fun hlimit actions code ↦ ⟨records_run hopen hlimit actions code, ?_⟩⟩
  case refine_2 => rw [capacity_run, hcapacity, Nat.mod_eq_of_lt hlimit]
  have hother : text ≠ text.push 'a' := fun heq ↦ by
    simpa using congrArg String.length heq
  -- the first commit needs two texts
  have hkept : 2 ≤ s.history.capacity := by
    refine (records_recordWithin_iff ?_ ?_).1 (records_record_iff.1 (hrecords [] (text.push 'a')).1)
    · show s.history.index < s.history.entries.length
      rw [hhistory]
      exact Nat.zero_lt_one
    · show s.history.current? ≠ _
      rw [hhistory]
      exact fun hcurrent ↦ hother (Option.some.inj hcurrent)
  by_contra hsize
  have hwraps : config.historyLimit.toNat + 1 = UInt64.size :=
    le_antisymm (Nat.succ_le_of_lt config.historyLimit.toNat_lt_size) (not_lt.1 hsize)
  rw [hcapacity, hwraps, Nat.mod_self] at hkept
  exact absurd hkept (by decide)

/-- With the smallest limit, code that is typed can be committed on code that was typed before, and so
can another text in words of two bits. -/
theorem records_of_smallest_limit : ∃ config s, Config.validated { historyLimit := 1 } = .ok config ∧
    openText config "<svg/>" = .ok s ∧ config.historyLimit.toNat + 1 < UInt64.size ∧
    (s.run [.setCode "<svg><g/></svg>"]).history.Records History.record "<svg/>" ∧
    (1 : BitVec 2) ≠ 0 ∧ s.history.index < s.history.entries.length ∧
    s.history.current? ≠ some "<svg><g/></svg>" ∧
    s.history.Records (recordWithin (capacityOf (1 : BitVec 2))) "<svg><g/></svg>" := by
  have hvalid : Config.validated { historyLimit := 1 } = .ok { historyLimit := 1 } := by
    rw [Config.validated, if_neg (by decide +kernel), if_neg (by decide)]
  have hopen : openText { historyLimit := 1 } "<svg/>" = .ok _ := openText_eq_ok componentsOf_root
  have hlimit : (1 : BitVec 2) ≠ 0 := by decide
  obtain ⟨-, hwords, hrecords⟩ := records_iff hlimit hvalid hopen
  exact ⟨_, _, hvalid, hopen, by decide,
    (hrecords.2 (by decide) [.setCode "<svg><g/></svg>"] "<svg/>").1, hlimit, by decide, by decide,
    (hwords _ _ (by decide) (by decide)).2 (by decide)⟩

/-- **The largest word is a limit that the editor takes**, and the first text that is committed under
it is lost, with the text before. -/
theorem not_records_of_largest_limit : ∃ config s,
    Config.validated { historyLimit := 18446744073709551615 } = .ok config ∧
    openText config "<svg/>" = .ok s ∧ s.history.current? = some "<svg/>" ∧
    (s.perform (.setCode "<svg><g/></svg>")).1 = .outcome .committed ∧
    (s.run [.setCode "<svg><g/></svg>"]).history.current? = none ∧
    (s.run [.setCode "<svg><g/></svg>"]).history.canUndo = false := by
  have hvalid : Config.validated { historyLimit := 18446744073709551615 }
      = .ok { historyLimit := 18446744073709551615 } := by
    rw [Config.validated, if_neg (by decide +kernel), if_neg (by decide)]
  have hopen : openText { historyLimit := 18446744073709551615 } "<svg/>" = .ok _ :=
    openText_eq_ok componentsOf_root
  refine ⟨_, _, hvalid, hopen, rfl, ?_, ?_, ?_⟩
  all_goals
    simp only [run, List.foldl_cons, List.foldl_nil, perform, Reply.ofOutcome, setCode,
      componentsOf_group]
    rw [if_neg (by decide)]
  all_goals rfl

end Session

end SvgWorkbench
