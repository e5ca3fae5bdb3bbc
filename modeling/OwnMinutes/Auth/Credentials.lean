import OwnMinutes.Auth.Errors
import OwnMinutes.Lib.JsText
import OwnMinutes.Lib.Newest

/-! # Passwords, sessions and tokens of the local store

`loginUser`, `createSession`, `changePassword`, the password reset, the verification of an email and
`deleteAccount` of `auth-store.ts`, each on one store that it reads and writes whole. What an operation draws (ids,
tokens, codes, salts) and the time are its arguments. Roles, names and growth events are left out; what
`refreshLocalUserEntitlements` makes of the quota fields of an account is an argument too. -/

namespace OwnMinutes.Auth.Credentials

open OwnMinutes.Lib OwnMinutes.Lib.Keyed OwnMinutes.Lib.Newest
open OwnMinutes.Auth.ProcessingRoute OwnMinutes.Auth.Records OwnMinutes.Auth.Errors

abbrev Text := List Char

def EMAIL_VERIFICATION_CODE_TTL_MS : ℕ := 10 * 60 * 1000
def EMAIL_VERIFICATION_LINK_TTL_MS : ℕ := 24 * 60 * 60 * 1000
def EMAIL_VERIFICATION_RESEND_COOLDOWN_MS : ℕ := 60 * 1000
def EMAIL_VERIFICATION_MAX_FAILED_ATTEMPTS : ℕ := 5
def PASSWORD_RESET_RESEND_COOLDOWN_MS : ℕ := 60 * 1000
def PASSWORD_RESET_TTL_MS : ℕ := 30 * 60 * 1000
def SESSION_MAX_AGE_MS : ℕ := 60 * 60 * 24 * 30 * 1000

/-- What the store uses of the platform. -/
structure Platform where
  toLowerCase : Text → Text
  scrypt : Text → Text → Text
  hashToken : Text → Text
  hashEmailVerificationCode : Text → String → UserId → Text
  scrypt_injective : ∀ salt, Function.Injective (scrypt · salt)
  hashToken_injective : Function.Injective hashToken

/-! ### Texts -/

/-- `length` of a text, in UTF-16 units. -/
def jsLength (text : Text) : ℕ := (text.map JsText.utf16Units).sum

/-- `/^[^\s@]+@[^\s@]+\.[^\s@]+$/` -/
def isValidEmail (email : Text) : Bool :=
  match email.splitOn '@' with
  | [name, domain] =>
    !name.isEmpty && email.all (fun c => !JsText.isWhiteSpace c) && domain.tail.dropLast.contains '.'
  | _ => false

/-- `/^[A-Za-z0-9_-]{24,128}$/` -/
def isResetToken (token : Text) : Bool :=
  decide (24 ≤ token.length) && decide (token.length ≤ 128) &&
    token.all fun c => c.isAlphanum || c == '_' || c == '-'

/-- `/^\d{6}$/` -/
def isCode (code : Text) : Bool := code.length == 6 && code.all Char.isDigit

/-! ### Records -/

structure Account extends UserRecord where
  email : Text
  passwordSalt : Text
  passwordHash : Text
  emailVerifiedAt : Option Timestamp
  emailVerificationPending : Bool
  deriving DecidableEq

instance : HasKey Account UserId := ⟨fun user => user.id⟩

structure SessionRecord where
  id : String
  userId : UserId
  tokenHash : Text
  createdAt : Timestamp
  lastSeenAt : Timestamp
  expiresAt : Timestamp
  deriving DecidableEq

instance : HasKey SessionRecord String := ⟨SessionRecord.id⟩

inductive CredentialKind
  | link
  | otp
  deriving DecidableEq, Repr

structure EmailVerificationTokenRecord where
  id : String
  userId : UserId
  tokenHash : Text
  createdAt : Timestamp
  expiresAt : Timestamp
  usedAt : Option Timestamp := none
  credentialKind : CredentialKind
  failedAttempts : ℕ := 0
  lockedAt : Option Timestamp := none
  deriving DecidableEq

instance : HasKey EmailVerificationTokenRecord String := ⟨EmailVerificationTokenRecord.id⟩

structure PasswordResetTokenRecord where
  id : String
  userId : UserId
  tokenHash : Text
  createdAt : Timestamp
  expiresAt : Timestamp
  usedAt : Option Timestamp := none
  deriving DecidableEq

instance : HasKey PasswordResetTokenRecord String := ⟨PasswordResetTokenRecord.id⟩

structure CredentialStore where
  users : Table Account := .empty
  sessions : Table SessionRecord := .empty
  emailVerificationTokens : Table EmailVerificationTokenRecord := .empty
  passwordResetTokens : Table PasswordResetTokenRecord := .empty
  usageEvents : List UsageEventRecord := []
  deriving DecidableEq

/-! ### Errors -/

def emailInvalid : AuthError := { message := "请输入有效邮箱。" }
def nameTooShort : AuthError := { message := "姓名或团队名至少需要 2 个字符。" }
def passwordTooShort : AuthError := { message := "密码至少需要 8 位。" }
def emailRegistered : AuthError := { message := "该邮箱已经注册，请直接登录。", status := 409 }
def credentialsInvalid : AuthError := { message := "邮箱或密码不正确。", status := 401 }
def emailUnverified : AuthError :=
  { message := "请先完成邮箱验证。", status := 403, code := some "email_verification_required" }
def verificationLinkInvalid : AuthError :=
  { message := "邮箱验证链接无效或已过期。", code := some "invalid_email_verification_token" }
def invalidEmailVerificationCodeError : AuthError :=
  { message := "验证码无效，请检查后重试。", code := some "invalid_email_verification_code" }
def verificationCodeLocked : AuthError :=
  { message := "验证码尝试次数过多，请重新获取。", code := some "email_verification_code_locked" }
def verificationCodeExpired : AuthError :=
  { message := "验证码已过期，请重新获取。", code := some "email_verification_code_expired" }
def newPasswordTooShort : AuthError := { message := "新密码至少需要 8 位。" }
def newPasswordSame : AuthError := { message := "新密码不能和当前密码相同。" }
def currentPasswordWrong : AuthError := { message := "当前密码不正确。", status := 401 }
def resetLinkInvalid : AuthError := { message := "重置链接无效或已过期。" }
def sessionAccountMissing : AuthError := { message := "账号不存在或已删除。", status := 401 }

/-! ### Answers -/

/-- What an operation answers, with the records it is about. -/
inductive Outcome
  | refused (error : AuthError)
  | registered (userId : UserId) (bonus : Bool)
  | loggedIn (userId : UserId)
  | settled
  | session (userId : UserId) (token : Text)
  | changed (userId : UserId)
  | emailSent
  | resetIssued (userId : UserId) (token : Text)
  | reset (userId : UserId)
  | verificationIssued (userId : UserId) (token : Text) (otpId : String)
  | verified (userId : UserId) (recordId : String) (bonus : Bool)
  | mismatched (recordId : String) (error : AuthError)
  | accepted (userId : UserId)
  | nobody
  | deleted (userId : UserId)
  deriving DecidableEq

/-- Nothing was done. -/
def Outcome.isRefusal : Outcome → Bool
  | refused _ => true
  | emailSent => true
  | nobody => true
  | _ => false

/-- The account that a call was answered for. -/
def Outcome.user : Outcome → Option UserId
  | registered userId _ => some userId
  | loggedIn userId => some userId
  | session userId _ => some userId
  | changed userId => some userId
  | resetIssued userId _ => some userId
  | reset userId => some userId
  | verificationIssued userId _ _ => some userId
  | verified userId _ _ => some userId
  | accepted userId => some userId
  | deleted userId => some userId
  | refused _ => none
  | settled => none
  | emailSent => none
  | mismatched _ _ => none
  | nobody => none

section Operations

variable (platform : Platform)

def normalizeEmail (email : Text) : Text := platform.toLowerCase (JsText.trim email)

def verifyPassword (password salt expectedHash : Text) : Bool := platform.scrypt password salt = expectedHash

def findByEmail (store : CredentialStore) (email : Text) : Option Account :=
  store.users.find? fun user => user.active && user.email = email

def findById (store : CredentialStore) (userId : UserId) : Option Account :=
  store.users.find? fun user => user.active && user.id = userId

def CredentialStore.putUser (store : CredentialStore) (user : Account) : CredentialStore :=
  { store with users := store.users.replace user }

/-! ### Registration -/

/-- `grantLocalRegistrationBonus`: the usage events and the account after it. -/
def grantLocalRegistrationBonus (usageEvents : List UsageEventRecord) (user : Account) (grantedAt : Timestamp)
    (usageId : String) : List UsageEventRecord × Account :=
  let existing := usageEvents.any fun event => event.userId = user.id && event.type = .registerBonus
  let total := max FREE_TRIAL_MINUTES user.freeTrialMinutesTotal
  let used := min total (max 0 user.freeTrialMinutesUsed)
  let grantedAt := if existing then user.freeTrialGrantedAt else grantedAt
  (if existing then usageEvents
    else usageEvents ++ [
      { id := usageId, userId := user.id, type := .registerBonus, minutes := FREE_TRIAL_MINUTES
        note := "Free plan official trial quota" }],
    if user.plan = .free then
      { user with
        freeTrialGrantedAt := grantedAt, freeTrialMinutesTotal := total, freeTrialMinutesUsed := used
        officialMinutesTotal := total, officialMinutesUsed := used, officialMinutesPeriodStartAt := some grantedAt
        officialMinutesPeriodEndAt := none, officialMinutesPeriodSource := some FREE_TRIAL_SOURCE
        officialMinutesBillingOrderId := none }
    else
      { user with
        freeTrialGrantedAt := grantedAt, freeTrialMinutesTotal := total, freeTrialMinutesUsed := used })

/-- The bonus leaves the credentials of the account alone. -/
theorem grantLocalRegistrationBonus_account (usageEvents : List UsageEventRecord) (user : Account)
    (grantedAt : Timestamp) (usageId : String) :
    let after := (grantLocalRegistrationBonus usageEvents user grantedAt usageId).2
    after.id = user.id ∧ after.deletedAt = user.deletedAt ∧ after.passwordSalt = user.passwordSalt ∧
      after.passwordHash = user.passwordHash ∧ after.emailVerifiedAt = user.emailVerifiedAt := by
  unfold grantLocalRegistrationBonus
  dsimp only
  split_ifs <;> exact ⟨rfl, rfl, rfl, rfl, rfl⟩

/-- `hashPassword` with the salt that it draws, put on an account. -/
def Account.withPassword (user : Account) (password salt : Text) : Account :=
  { user with passwordSalt := salt, passwordHash := platform.scrypt password salt }

/-- The account that `registerUser` puts in the store. -/
def newAccount (verificationRequired : Bool) (now : Timestamp) (email password : Text) (userId : UserId)
    (salt : Text) : Account :=
  let minutes := if verificationRequired then 0 else FREE_TRIAL_MINUTES
  { id := userId, createdAt := now, email := email, passwordSalt := salt
    passwordHash := platform.scrypt password salt
    emailVerifiedAt := if verificationRequired then none else some now
    emailVerificationPending := verificationRequired
    officialMinutesTotal := minutes, freeTrialMinutesTotal := minutes
    officialMinutesPeriodStartAt := if verificationRequired then none else some now
    officialMinutesPeriodSource := if verificationRequired then none else some FREE_TRIAL_SOURCE }

def registerUser (verificationRequired : Bool) (now : Timestamp) (email name password : Text) (userId : UserId)
    (salt : Text) (usageId : String) (store : CredentialStore) : CredentialStore × Outcome :=
  let email := normalizeEmail platform email
  if isValidEmail email = false then (store, .refused emailInvalid)
  else if jsLength (JsText.trim name) < 2 then (store, .refused nameTooShort)
  else if jsLength password < 8 then (store, .refused passwordTooShort)
  else if (findByEmail store email).isSome then (store, .refused emailRegistered)
  else
    let user := newAccount platform verificationRequired now email password userId salt
    if verificationRequired then ({ store with users := store.users.insert user }, .registered userId false)
    else
      let granted := grantLocalRegistrationBonus store.usageEvents user now usageId
      ({ store with users := store.users.insert granted.2, usageEvents := granted.1 },
        .registered userId (decide (granted.1 ≠ store.usageEvents)))

/-! ### Login and sessions -/

def loginUser (verificationRequired : Bool) (email password : Text) (store : CredentialStore) : Outcome :=
  match findByEmail store (normalizeEmail platform email) with
  | none => .refused credentialsInvalid
  | some user =>
    if verifyPassword platform password user.passwordSalt user.passwordHash = false then .refused credentialsInvalid
    else if verificationRequired && user.emailVerifiedAt.isNone then .refused emailUnverified
    else .loggedIn user.id

def createSession (now : Timestamp) (userId : UserId) (sessionId : String) (token : Text) (store : CredentialStore) :
    CredentialStore × Outcome :=
  match findById store userId with
  | none => (store, .refused sessionAccountMissing)
  | some _ =>
    let session : SessionRecord :=
      ⟨sessionId, userId, platform.hashToken token, now, now, now + SESSION_MAX_AGE_MS⟩
    ({ store with sessions := (store.sessions.removeWhere fun item => decide (item.expiresAt ≤ now)).insert session },
      .session userId token)

/-- The quota fields of an account, as `refreshLocalUserEntitlements` leaves them. -/
def Account.refreshed (user : Account) (quota : UserRecord) : Account :=
  { user with toUserRecord := { quota with id := user.id, deletedAt := user.deletedAt } }

def getUserBySessionToken (now : Timestamp) (token : Text) (quota : UserRecord) (store : CredentialStore) :
    CredentialStore × Outcome :=
  if token = [] then (store, .nobody)
  else
    match store.sessions.find? fun item => item.tokenHash = platform.hashToken token && now < item.expiresAt with
    | none => (store, .nobody)
    | some session =>
      match findById store session.userId with
      | none => (store, .nobody)
      | some user =>
        ({ (store.putUser (user.refreshed quota)) with
            sessions := store.sessions.replace { session with lastSeenAt := now } },
          .accepted user.id)

/-! ### Passwords -/

def changePassword (userId : UserId) (currentPassword newPassword : Text) (currentSessionToken : Option Text)
    (salt : Text) (store : CredentialStore) : CredentialStore × Outcome :=
  if jsLength newPassword < 8 then (store, .refused newPasswordTooShort)
  else if currentPassword = newPassword then (store, .refused newPasswordSame)
  else
    match findById store userId with
    | none => (store, .refused accountMissing)
    | some user =>
      if verifyPassword platform currentPassword user.passwordSalt user.passwordHash = false then
        (store, .refused currentPasswordWrong)
      else
        let currentTokenHash := (currentSessionToken.filter fun token => token ≠ []).map platform.hashToken
        ({ (store.putUser (user.withPassword platform newPassword salt)) with
            sessions := store.sessions.removeWhere fun session =>
              session.userId = userId && currentTokenHash ≠ some session.tokenHash },
          .changed userId)

def requestPasswordReset (now : Timestamp) (email : Text) (resetId : String) (resetToken : Text)
    (store : CredentialStore) : CredentialStore × Outcome :=
  let email := normalizeEmail platform email
  if isValidEmail email = false then (store, .emailSent)
  else
    match findByEmail store email with
    | none => (store, .emailSent)
    | some user =>
      let latestReset := newest (·.createdAt)
        (store.passwordResetTokens.rows.filter fun token => token.userId = user.id && token.usedAt.isNone)
      if latestReset.any fun token => now < token.createdAt + PASSWORD_RESET_RESEND_COOLDOWN_MS then
        (store, .emailSent)
      else
        let live := store.passwordResetTokens.removeWhere fun token =>
          !(token.userId ≠ user.id && now < token.expiresAt && token.usedAt.isNone)
        ({ store with
            passwordResetTokens := live.insert
              ⟨resetId, user.id, platform.hashToken resetToken, now, now + PASSWORD_RESET_TTL_MS, none⟩ },
          .resetIssued user.id resetToken)

def resetPasswordWithToken (now : Timestamp) (token newPassword salt : Text) (store : CredentialStore) :
    CredentialStore × Outcome :=
  if jsLength newPassword < 8 then (store, .refused newPasswordTooShort)
  else if isResetToken token = false then (store, .refused resetLinkInvalid)
  else
    match store.passwordResetTokens.find? fun item =>
      item.tokenHash = platform.hashToken token && item.usedAt.isNone with
    | none => (store, .refused resetLinkInvalid)
    | some resetToken =>
      if resetToken.expiresAt ≤ now then (store, .refused resetLinkInvalid)
      else
        match findById store resetToken.userId with
        | none => (store, .refused accountMissing)
        | some user =>
          ({ (store.putUser (user.withPassword platform newPassword salt)) with
              passwordResetTokens := store.passwordResetTokens.replace { resetToken with usedAt := some now }
              sessions := store.sessions.removeWhere fun session => session.userId = user.id },
            .reset user.id)

/-! ### Verification of an email -/

def requestEmailVerification (now : Timestamp) (email : Text) (linkId otpId : String) (verificationToken : Text)
    (verificationCode : Text) (store : CredentialStore) : CredentialStore × Outcome :=
  let email := normalizeEmail platform email
  if isValidEmail email = false then (store, .emailSent)
  else
    match findByEmail store email with
    | none => (store, .emailSent)
    | some user =>
      if user.emailVerifiedAt.isSome then (store, .emailSent)
      else
        let latestOtp := newest (·.createdAt)
          (store.emailVerificationTokens.rows.filter fun token => token.userId = user.id && token.credentialKind = .otp)
        if latestOtp.any fun token => now < token.createdAt + EMAIL_VERIFICATION_RESEND_COOLDOWN_MS then
          (store, .emailSent)
        else
          let live := store.emailVerificationTokens.removeWhere fun token =>
            !(token.userId ≠ user.id && now < token.expiresAt && token.usedAt.isNone)
          let link : EmailVerificationTokenRecord :=
            { id := linkId, userId := user.id, tokenHash := platform.hashToken verificationToken, createdAt := now
              expiresAt := now + EMAIL_VERIFICATION_LINK_TTL_MS, credentialKind := .link }
          let otp : EmailVerificationTokenRecord :=
            { id := otpId, userId := user.id
              tokenHash := platform.hashEmailVerificationCode verificationCode otpId user.id, createdAt := now
              expiresAt := now + EMAIL_VERIFICATION_CODE_TTL_MS, credentialKind := .otp }
          ({ store with emailVerificationTokens := (live.insert link).insert otp },
            .verificationIssued user.id verificationToken otpId)

/-- What both verifications write: the account, the bonus and the record, the only one that the account keeps. -/
def verifyWith (store : CredentialStore) (usageEvents : List UsageEventRecord) (user : Account)
    (record : EmailVerificationTokenRecord) (verifiedAt : Timestamp) : CredentialStore × Outcome :=
  ({ (store.putUser user) with
      usageEvents := usageEvents
      emailVerificationTokens :=
        (store.emailVerificationTokens.replace { record with usedAt := some verifiedAt }).removeWhere fun item =>
          !(item.userId ≠ user.id || item.id = record.id) },
    .verified user.id record.id (decide (usageEvents ≠ store.usageEvents)))

def verifyEmailWithToken (now : Timestamp) (token : Text) (usageId : String) (store : CredentialStore) :
    CredentialStore × Outcome :=
  if jsLength token < 24 then (store, .refused verificationLinkInvalid)
  else
    match store.emailVerificationTokens.find? fun item =>
      item.credentialKind = .link && item.tokenHash = platform.hashToken token && item.usedAt.isNone with
    | none => (store, .refused verificationLinkInvalid)
    | some record =>
      if record.expiresAt ≤ now then (store, .refused verificationLinkInvalid)
      else
        match findById store record.userId with
        | none => (store, .refused accountMissing)
        | some user =>
          let verified : Account :=
            { user with
              emailVerifiedAt := user.emailVerifiedAt <|> some now, emailVerificationPending := false }
          if user.emailVerifiedAt.isNone then
            let granted := grantLocalRegistrationBonus store.usageEvents verified now usageId
            verifyWith store granted.1 granted.2 record now
          else verifyWith store store.usageEvents verified record now

def verifyEmailWithCode (now : Timestamp) (email code : Text) (usageId : String) (store : CredentialStore) :
    CredentialStore × Outcome :=
  let code := JsText.trim code
  match findByEmail store (normalizeEmail platform email) with
  | none => (store, .refused invalidEmailVerificationCodeError)
  | some user =>
    if isCode code = false then (store, .refused invalidEmailVerificationCodeError)
    else if user.emailVerifiedAt.isSome then (store, .refused invalidEmailVerificationCodeError)
    else
      match newest (·.createdAt) (store.emailVerificationTokens.rows.filter fun item =>
        item.userId = user.id && item.credentialKind = .otp && item.usedAt.isNone) with
      | none => (store, .refused invalidEmailVerificationCodeError)
      | some record =>
        if record.lockedAt.isSome ∨ EMAIL_VERIFICATION_MAX_FAILED_ATTEMPTS ≤ record.failedAttempts then
          (store, .refused verificationCodeLocked)
        else if record.expiresAt ≤ now then (store, .refused verificationCodeExpired)
        else if platform.hashEmailVerificationCode code record.id user.id ≠ record.tokenHash then
          let failedAttempts := record.failedAttempts + 1
          let lockedAt :=
            if EMAIL_VERIFICATION_MAX_FAILED_ATTEMPTS ≤ failedAttempts then some now else record.lockedAt
          let failed := { record with failedAttempts := failedAttempts, lockedAt := lockedAt }
          ({ store with emailVerificationTokens := store.emailVerificationTokens.replace failed },
            .mismatched record.id (if lockedAt.isSome then verificationCodeLocked else invalidEmailVerificationCodeError))
        else
          let verified : Account := { user with emailVerifiedAt := some now, emailVerificationPending := false }
          let granted := grantLocalRegistrationBonus store.usageEvents verified now usageId
          verifyWith store granted.1 granted.2 record now

/-! ### Deletion -/

def deletedEmail (userId : UserId) : Text := ("deleted-" ++ userId ++ "@ownminutes.local").toList

def deleteAccount (now : Timestamp) (userId : UserId) (password salt : Text) (store : CredentialStore) :
    CredentialStore × Outcome :=
  match findById store userId with
  | none => (store, .refused accountMissing)
  | some user =>
    let deleted : Account :=
      { user.withPassword platform password salt with
        email := deletedEmail user.id, deletedAt := some now, plan := .free, officialMinutesTotal := 0
        officialMinutesUsed := 0, officialMinutesPeriodStartAt := none, officialMinutesPeriodEndAt := none
        officialMinutesPeriodSource := some "deleted", officialMinutesBillingOrderId := none }
    ({ (store.putUser deleted) with
        sessions := store.sessions.removeWhere fun session => session.userId = userId
        emailVerificationTokens := store.emailVerificationTokens.removeWhere fun token => token.userId = userId
        passwordResetTokens := store.passwordResetTokens.removeWhere fun token => token.userId = userId
        usageEvents := store.usageEvents.filter fun event => event.userId ≠ userId },
      .deleted userId)

end Operations

end OwnMinutes.Auth.Credentials
