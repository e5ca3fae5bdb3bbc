import OwnMinutes.Local.Calls
import OwnMinutes.Quota.Fencing

/-! # Provider calls of the local store are fenced

Every effect of a call on the store is a change of the provider steps that the fence allows. -/

namespace OwnMinutes.Local.Fencing

open OwnMinutes.Lib.Keyed OwnMinutes.Lib.Outcome OwnMinutes.Auth.ProcessingRoute
open OwnMinutes.Auth.Records OwnMinutes.Auth.QuotaTypes OwnMinutes.Quota.Calls
open OwnMinutes.Quota.Fencing OwnMinutes.Local.Store OwnMinutes.Local.Quota OwnMinutes.Local.Calls

variable {hashToken : ClaimToken → TokenHash}

theorem recording_steps {now : Timestamp} {userId : UserId} {s s' : AuthStore}
    (h : Recording now userId s s') : s'.meetingProviderSteps = s.meetingProviderSteps := by
  cases h <;> rfl

/-- Every effect is a step change. -/
theorem stepChange_of_effect {now : Timestamp} {call : QuotaCall} {s s' : AuthStore}
    {res : QuotaResult} (h : Effect hashToken now call s res s') :
    StepChange hashToken now call s.meetingProviderSteps res s'.meetingProviderSteps := by
  cases h with
  | unchanged hquiet | reserveNew hquiet | reserveAgain hquiet => exact .same hquiet
  | @claimNew user r step token leaseExpiresAt _ _ _ _ hid htoken hstep hfree =>
    have hstage : rowAt s.meetingProviderSteps
        (stageOf (claimedStep hashToken step token leaseExpiresAt)) = none := by
      rw [← hfree, ← hstep.1]
      exact Table.find?_congr fun x _ => rfl
    exact .claimFirst ⟨_, rfl, rfl⟩ hid htoken hstage rfl rfl
  | claimAgain _ _ _ _ htoken hstep _ hopen =>
    exact .claimAgain ⟨_, rfl, rfl⟩ htoken hstep ⟨rfl, rfl⟩ hopen rfl rfl
  | start hcall _ _ _ _ hstep hid _ _ hclaimed hhash hlease =>
    rw [hcall]
    exact .start ⟨_, rfl, rfl⟩ rfl hstep hid hhash ⟨rfl, rfl⟩ hclaimed hlease rfl rfl
  | complete hquiet hcall hstep hstarted =>
    refine .complete hquiet ?_ hstep ⟨rfl, rfl⟩ hstarted rfl rfl
    rcases hcall with ⟨input, hcall, hid, hhash⟩ | ⟨input, hcall⟩ <;> rw [hcall]
    · exact .inl ⟨input, rfl, hid, hhash⟩
    · exact .inr ⟨input, rfl⟩
  | @releaseStep res step input hres hcall hstep hid hclaimed hhash =>
    rcases hcall with hcall | hcall
    · obtain ⟨r, rfl, hr⟩ := hres
      rw [hcall]
      exact .release (by simp [Quiet, hr]) ⟨input, rfl, hid, hhash⟩ hstep ⟨rfl, rfl⟩ hclaimed rfl rfl
    · exact .reject hres hcall hstep hid hhash ⟨rfl, rfl⟩ (.inr hclaimed) rfl rfl
  | refund hcall _ _ _ _ _ hstep hid _ _ hstarted hhash =>
    rw [hcall]
    exact .reject ⟨_, rfl, rfl⟩ rfl hstep hid hhash ⟨rfl, rfl⟩ (.inl hstarted) rfl rfl
  | rejectDeleted hcall _ _ hstep hid _ hopen hhash hs' =>
    cases hs'
    rw [hcall]
    exact .reject ⟨_, rfl, rfl⟩ rfl hstep hid hhash ⟨rfl, rfl⟩ hopen rfl rfl
  | releaseReservation hquiet hcall _ _ _ hidle =>
    rw [hcall]
    exact .releaseAll hquiet rfl hidle
  | @record input newId mid user hcall hmid huser =>
    have hmid := recording_steps (recording_of_ok hmid)
    have hrefresh := (refresh_rows now (normalizeStore mid) user).steps
    rw [hrefresh.trans hmid]
    exact .same trivial

theorem changesSteps :
    ChangesSteps hashToken (QuotaStep hashToken) (·.meetingProviderSteps) where
  ok {s e t res} h hres := by
    obtain ⟨-, -, hexec, -⟩ := h
    rw [hres] at hexec
    have hchange := stepChange_of_effect (effect_of_execute hashToken hexec)
    exact hchange
  error {s e t err} h hres := by
    obtain ⟨-, -, hexec, -⟩ := h
    rw [hres] at hexec
    rw [execute_error hashToken hexec]
  fresh {s e t} h := h.2.1.2

end OwnMinutes.Local.Fencing
