import KubeStellar.MailboxController.Index
import KubeStellar.MailboxWatch.ListerWatcher

/-! # The names of mailbox spaces

A name is taken for that of a mailbox space if it has two parts, by three components: the workload projector
(`looksLikeMBWSName` of `pkg/placement/workload-projector.go`), the mailbox controller and `pkg/mailboxwatch`.
-/

namespace KubeStellar.MailboxController

open List

variable (spaceName : String)

def looksLikeMBWSName : Bool := (Strings.split spaceName MBspaceNameSep).length == 2

structure Recognised (name : String) : Prop where
  projector : looksLikeMBWSName name = true
  controller : ∀ {ix : Indexer} (ctl : MbCtl ix) (ord : RangeOrder) (api : Api),
    (ctl.sync ord api (.space name)).verdict ≠ .notMailboxName
  mailboxWatch : ∀ (clw : MailboxWatch.CrossClusterListerWatcher) (cluster : String),
    (clw.setInclusion ⟨name, cluster⟩ true).perCluster.has cluster = true

variable (uid : UID) (start : List Char)

open Strings

theorem UID.not_infix (hStart : 'm' ∉ start.tail) : ¬ ['-', 'm', 'b', '-'] <:+: start ++ uid.text.toList := by
  rintro ⟨before, after, hText⟩
  have hTail : 'm' ∈ (start ++ uid.text.toList).tail := by
    rw [← hText]
    cases before <;> simp
  cases start with
  | nil => exact uid.not_mem (mem_of_mem_tail hTail)
  | cons x start =>
    rcases mem_append.mp hTail with hMem | hMem
    · exact hStart hMem
    · exact uid.not_mem hMem

theorem UID.length_splitFrom (hStart : 'm' ∉ start.tail) (part : List Char) :
    (splitFrom ['-', 'm', 'b', '-'] 0 part (['-', 'm', 'b', '-'] ++ (start ++ uid.text.toList))).length = 2 := by
  rw [splitFrom_of_isPrefixOf _ _ (cons_ne_nil _ _),
    splitFrom_of_not_infix (uid.not_infix start hStart)]
  rfl

theorem length_splitFrom_eq_two_iff (spaceName part : List Char) :
    (splitFrom ['-', 'm', 'b', '-'] 0 part (spaceName ++ (['-', 'm', 'b', '-'] ++ uid.text.toList))).length = 2 ↔
      ¬ ['-', 'm', 'b', '-'] <:+: spaceName := by
  have hSep : ['-', 'm', 'b', '-'] ≠ [] := cons_ne_nil _ _
  induction spaceName generalizing part with
  | nil => exact iff_of_true (uid.length_splitFrom [] not_mem_nil part) (by decide)
  | cons c spaceName ih =>
    by_cases hHere : ['-', 'm', 'b', '-'] <+: c :: spaceName
    · obtain ⟨rest, hRest⟩ := hHere
      have hMore : ['-', 'm', 'b', '-'] <:+: rest ++ (['-', 'm', 'b', '-'] ++ uid.text.toList) :=
        ⟨rest, uid.text.toList, by simp⟩
      have hLength := two_le_length_splitFrom hSep hMore []
      rw [← hRest, append_assoc, splitFrom_of_isPrefixOf _ _ hSep, length_cons]
      exact iff_of_false (by omega) (not_not.mpr ⟨[], rest, rfl⟩)
    · by_cases hOver : ['-', 'm', 'b', '-'] <+: c :: (spaceName ++ (['-', 'm', 'b', '-'] ++ uid.text.toList))
      · -- the first separator ends in the one that was added, so the space name is the start of a separator
        rcases spaceName with _ | ⟨x, _ | ⟨y, _ | ⟨z, spaceName⟩⟩⟩
        · simp at hOver
        · simp at hOver
        · obtain ⟨rfl, rfl, rfl⟩ : c = '-' ∧ x = 'm' ∧ y = 'b' := by simpa [eq_comm] using hOver
          exact iff_of_true (uid.length_splitFrom ['m', 'b', '-'] (by decide) part) (by decide)
        · exact absurd (by simpa using hOver) hHere
      · rw [cons_append, splitFrom, if_neg fun h => hOver <| isPrefixOf_iff_prefix.mp h,
          infix_cons_iff, or_iff_right hHere]
        exact ih (c :: part)

section Components

variable {name : String} (hTwo : (Strings.split name "-mb-").length = 2) {ix : Indexer} (ctl : MbCtl ix)
  (api : Api) (mbsName : String)

theorem syncUnwanted_ne : (ctl.syncUnwanted api mbsName).verdict ≠ .notMailboxName := by
  intro hVerdict
  have hAbsent := ctl.syncUnwanted_absent api mbsName
  rw [hVerdict] at hAbsent
  cases hAbsent

include hTwo

theorem sync_ne (ord : RangeOrder) (api : Api) : (ctl.sync ord api (.space name)).verdict ≠ .notMailboxName := by
  have hParts : ¬ (split name mbsNameSep).length ≠ 2 := not_not.mpr hTwo
  rw [MbCtl.sync, MbCtl.syncSpace, if_neg hParts]
  split
  · exact syncUnwanted_ne ctl api name
  · exact Verdict.noConfusion
  · split
    · exact syncUnwanted_ne ctl api name
    · exact (ctl.syncWanted_keeps api name _).recognised

theorem has_setInclusion (clw : MailboxWatch.CrossClusterListerWatcher) (cluster : String) :
    (clw.setInclusion ⟨name, cluster⟩ true).perCluster.has cluster = true := by
  have hParts : ¬ (split name MBspaceNameSep).length ≠ 2 := not_not.mpr hTwo
  rw [MailboxWatch.CrossClusterListerWatcher.setInclusion]
  rw [if_neg hParts]
  split
  · assumption
  · rw [if_pos rfl, GoMap.has, MapSet.add, GoMap.get_put, if_pos rfl]
    rfl

end Components

theorem recognised_iff (name : String) : Recognised name ↔ (split name "-mb-").length = 2 :=
  ⟨fun hRecognised => beq_iff_eq.mp hRecognised.projector,
    fun hTwo => ⟨beq_iff_eq.mpr hTwo, sync_ne hTwo, has_setInclusion hTwo⟩⟩

def mailboxName (uid : UID) : String := SPMailboxWorkspaceName ⟨spaceName, "", "", uid.text⟩

theorem split_mailboxName_iff (uid : UID) :
    (split (mailboxName spaceName uid) "-mb-").length = 2 ↔ ¬ MBspaceNameSep.toList <:+: spaceName.toList := by
  rw [mailboxName, SPMailboxWorkspaceName, split, String.toList_append, String.toList_append, append_assoc]
  exact length_splitFrom_eq_two_iff uid spaceName.toList []

theorem mailboxName_inj {spaceName spaceName' : String} {uid uid' : UID}
    (hName : mailboxName spaceName uid = mailboxName spaceName' uid') : spaceName = spaceName' ∧ uid = uid' := by
  obtain rfl := uid_of_mbsName hName
  have hChars := congrArg String.toList hName
  simp only [mailboxName, SPMailboxWorkspaceName, String.toList_append] at hChars
  exact ⟨String.toList_inj.mp (append_cancel_right (append_cancel_right hChars)), rfl⟩

/-- The mailbox names of a space are recognised if and only if the separator is not in the name of the space, and the
mailbox names of different spaces or SyncTargets are different. -/
theorem mailboxName_recognised_iff (spaceName : String) (uid : UID) :
    (Recognised (mailboxName spaceName uid) ↔ ¬ MBspaceNameSep.toList <:+: spaceName.toList) ∧
      ∀ spaceName' uid', mailboxName spaceName uid = mailboxName spaceName' uid' →
        spaceName = spaceName' ∧ uid = uid' :=
  ⟨(recognised_iff _).trans (split_mailboxName_iff spaceName uid), fun _ _ => mailboxName_inj⟩

def florinUID : UID where
  text := "11c4c16a-82f9-48ad-b036-879aba135959"
  chars := by decide

/-- The name is ignored by the controller that makes it. -/
theorem mailboxName_ignored :
    ¬ Recognised (mailboxName "team-mb-1" florinUID) ∧ looksLikeMBWSName (mailboxName "team-mb-1" florinUID) = false ∧
      ∀ {ix : Indexer} (ctl : MbCtl ix) (ord : RangeOrder) (api : Api),
        ctl.sync ord api (.space (mailboxName "team-mb-1" florinUID)) = ⟨.notMailboxName, [], []⟩ := by
  have hParts : (Strings.split (mailboxName "team-mb-1" florinUID) "-mb-").length = 3 := by decide
  refine ⟨fun hRecognised => ?_, ?_, fun ctl ord api => ?_⟩
  · have hTwo := (recognised_iff _).mp hRecognised
    omega
  · rfl
  · rfl

end KubeStellar.MailboxController
