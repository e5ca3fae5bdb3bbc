import OwnMinutes.Auth.Records

/-! # The errors of the auth backends

Both backends throw the same texts, statuses and codes. -/

namespace OwnMinutes.Auth.Errors

open OwnMinutes.Auth.Records

/-! ### Accounts -/

def accountMissing : AuthError := { message := "账号不存在或已删除。", status := 404 }

def accountUnknown : AuthError := { message := "账号不存在。", status := 404 }

/-! ### Quota reservations -/

def meetingProcessingFinalizedRealtime : AuthError :=
  { message := "会议已经完成处理，不能继续调用实时识别。", status := 409
    code := some "meeting_processing_finalized" }

def meetingProcessingFinalized : AuthError :=
  { message := "会议处理已经完成。", status := 409, code := some "meeting_processing_finalized" }

def realtimeSequenceOutOfOrder (expectedSequence : ℤ) : AuthError :=
  { message := "实时分片顺序错误，当前需要第 " ++ toString expectedSequence ++ " 片。", status := 409
    code := some "realtime_sequence_out_of_order" }

def reservationMissing : AuthError :=
  { message := "会议额度预占记录不存在。", status := 404
    code := some "meeting_quota_reservation_missing" }

def reservationNotOwned : AuthError :=
  { message := "会议额度预占记录不存在或不属于当前账号。", status := 409
    code := some "meeting_quota_reservation_missing" }

def reservationMeetingMismatch : AuthError :=
  { message := "会议额度预占记录与当前会议不匹配。", status := 409
    code := some "meeting_quota_owner_mismatch" }

def processingModeConflict : AuthError :=
  { message := "这场会议的处理方式已在开始时固定，不能在上传或重试时更换。", status := 409
    code := some "meeting_processing_mode_conflict" }

def reservationExpired : AuthError :=
  { message := "会议额度预占已释放或过期，请重新预占。", status := 409
    code := some "meeting_quota_reservation_expired" }

def quotaNotSettled : AuthError :=
  { message := "官方额度尚未在 Provider 调用前完成结算。", status := 409
    code := some "meeting_quota_not_settled" }

def quotaInsufficientToReserve (target available : ℤ) : AuthError :=
  { message := "官方额度不足：本次至少需要 " ++ toString target ++
      " 分钟，扣除其他处理中任务后还可预占 " ++ toString available ++
      " 分钟。完整录音仍保留，可配置 BYOK 或增加额度后重试。"
    status := 402, code := some "official_quota_insufficient" }

def quotaInsufficientToSettle (delta available : ℤ) : AuthError :=
  { message := "官方额度不足：Provider 调用前需要结算 " ++ toString delta ++
      " 分钟，当前可结算 " ++ toString available ++ " 分钟。"
    status := 402, code := some "official_quota_insufficient" }

def quotaInsufficientToRecord (target available : ℤ) : AuthError :=
  { message := "官方额度不足：本次至少需要 " ++ toString target ++
      " 分钟，扣除处理中任务后还可使用 " ++ toString available ++ " 分钟。"
    status := 402, code := some "official_quota_insufficient" }

/-! ### Provider steps -/

/-- A plain `Error`, which the routes answer with 500. -/
def stageSequenceInvalid : AuthError :=
  { message := "Realtime provider stage sequence must be a non-negative integer.", status := 500 }

def providerStepMissing : AuthError :=
  { message := "Provider 步骤不存在。", status := 404, code := some "provider_step_missing" }

def providerStepNotClaimed : AuthError :=
  { message := "Provider 步骤未处于可启动状态。", status := 409
    code := some "provider_step_not_claimed" }

def providerStepClaimMismatch : AuthError :=
  { message := "Provider 步骤认领令牌无效。", status := 409
    code := some "provider_step_claim_mismatch" }

def providerStepClaimExpired : AuthError :=
  { message := "Provider 步骤认领已过期，可重新认领。", status := 409
    code := some "provider_step_claim_expired" }

def providerStepUncertain : AuthError :=
  { message := "Provider 调用状态不确定，不能释放该额度预占。", status := 409
    code := some "provider_step_uncertain" }

def checkpointMismatch : AuthError :=
  { message := "Durable provider output does not match a started provider step.", status := 409
    code := some "provider_step_checkpoint_mismatch" }

def refundConflictFinalized : AuthError :=
  { message := "Provider 明确拒绝，但额度记录已无法安全回退。", status := 409
    code := some "provider_step_refund_conflict" }

def refundConflictSettled : AuthError :=
  { message := "Provider 明确拒绝，但已结算分钟与额度记录不一致。", status := 409
    code := some "provider_step_refund_conflict" }

def refundConflictUsed : AuthError :=
  { message := "Provider 明确拒绝，但当前账期已用分钟不足以安全回退。", status := 409
    code := some "provider_step_refund_conflict" }

/-! ### Apple purchases and notifications -/

def appleTransactionBound : AuthError :=
  { message := "该 Apple 交易已绑定到其他 OwnMinutes 账号。", status := 409 }

def appleSubscriptionOwnerConflict : AuthError :=
  { message := "该 Apple 订阅已绑定到其他 OwnMinutes 账号。", status := 409
    code := some "apple_iap_subscription_owner_conflict" }

def appleStaleTransaction : AuthError :=
  { message := "Apple 订阅当前账期订单缺失，拒绝应用乱序交易。", status := 409
    code := some "apple_iap_stale_transaction" }

def appleStaleNotification : AuthError :=
  { message := "Apple 订阅当前账期账本缺失，拒绝应用乱序通知。", status := 409
    code := some "apple_iap_stale_notification" }

def appleTokenMismatch : AuthError :=
  { message := "Apple 交易账号令牌与当前账号不一致。", status := 403 }

def applePayloadMismatch : AuthError :=
  { message := "Apple notificationUUID 对应的 payload hash 不一致。", status := 409
    code := some "apple_notification_payload_mismatch" }

def appleTransactionIdMissing : AuthError :=
  { message := "Apple notification 缺少 transactionId。", status := 400 }

def appleOriginalTransactionIdMissing : AuthError :=
  { message := "Apple 续期通知缺少 originalTransactionId。", status := 400 }

def appleOwnerUnknown : AuthError :=
  { message := "Apple IAP 通知无法关联 OwnMinutes 账号，等待客户端恢复购买或对账。", status := 404 }

def appleEntitlementUnmapped : AuthError :=
  { message := "Apple 续期通知缺少权益映射。", status := 400 }

def appleLifecycleOrderMissing : AuthError :=
  { message := "Apple IAP 订阅状态通知找不到原始订单。", status := 404 }

def appleOrderUserMissing : AuthError :=
  { message := "Apple IAP 订单账号不存在。", status := 404 }

def appleOrderMissing : AuthError := { message := "Apple IAP 订单不存在。", status := 404 }

def appleGrantMissing : AuthError := { message := "Apple IAP 权益记录不存在。", status := 404 }

def appleReconciliationRequired : AuthError :=
  { message := "Apple 历史订单缺少商品或环境，无法修复订阅状态。", status := 409
    code := some "apple_iap_subscription_reconciliation_required" }

end OwnMinutes.Auth.Errors
