import PracticalMicroservice.Auth.System
import PracticalMicroservice.Foundations.Tables

/-!
# What a statement does to the tables

One lemma for each way the repository reaches a table, and for each table what an insert or an
update of one leaves in it.
-/

namespace PracticalMicroservice.Auth

open Foundations (DatabaseError Grown Keyed Lasting Store Transaction)

/-! ## The tables after an insert or an update -/

section Tables

variable {db : Database}

theorem tokens_insert (row : Row) :
    Database.tokens (Store.insert db row) = db.tokens ++ row.token?.toList := by
  unfold Database.tokens Store.insert
  cases row <;> simp [Row.token?]

theorem users_insert (row : Row) :
    Database.users (Store.insert db row) = db.users ++ row.user?.toList := by
  unfold Database.users Store.insert
  cases row <;> simp [Row.user?]

theorem verifications_insert (row : Row) :
    Database.verifications (Store.insert db row) = db.verifications ++ row.verification?.toList := by
  unfold Database.verifications Store.insert
  cases row <;> simp [Row.verification?]

/-- Rows of a table changed by an update of the rows behind it. -/
theorem filterMap_map_if {α : Type} (get : Row → Option α) (whose : Row → Bool)
    (change : Row → Row) (p : α → Bool) (f : α → α)
    (h : ∀ row, get (if whose row then change row else row) =
      (get row).map fun a => if p a then f a else a) (rows : List Row) :
    (rows.map fun row => if whose row then change row else row).filterMap get =
      (rows.filterMap get).map fun a => if p a then f a else a := by
  induction rows with
  | nil => rfl
  | cons row rows ih =>
    rw [List.map_cons, List.filterMap_cons, List.filterMap_cons, h row, ih]
    cases get row <;> rfl

@[simp] theorem tokens_update_token (p : RefreshToken → Bool) (f : RefreshToken → RefreshToken) :
    Database.tokens (Store.update db (Row.isToken p) (Row.onToken f)) =
      db.tokens.map fun t => if p t then f t else t := by
  refine filterMap_map_if _ _ _ p f (fun row => ?_) db.rows
  cases row with
  | token t => cases hp : p t <;> simp [Row.isToken, Row.onToken, Row.token?, hp]
  | _ => rfl

@[simp] theorem users_update_user (p : AuthUser → Bool) (f : AuthUser → AuthUser) :
    Database.users (Store.update db (Row.isUser p) (Row.onUser f)) =
      db.users.map fun u => if p u then f u else u := by
  refine filterMap_map_if _ _ _ p f (fun row => ?_) db.rows
  cases row with
  | user u => cases hp : p u <;> simp [Row.isUser, Row.onUser, Row.user?, hp]
  | _ => rfl

@[simp] theorem verifications_update_verification (p : Verification → Bool)
    (f : Verification → Verification) :
    Database.verifications (Store.update db (Row.isVerification p) (Row.onVerification f)) =
      db.verifications.map fun v => if p v then f v else v := by
  refine filterMap_map_if _ _ _ p f (fun row => ?_) db.rows
  cases row with
  | verification v =>
    cases hp : p v <;> simp [Row.isVerification, Row.onVerification, Row.verification?, hp]
  | _ => rfl

/-- An update that keeps what a table reads of each row keeps the table. -/
theorem filterMap_update {α : Type} (get : Row → Option α) (whose : Row → Bool)
    (change : Row → Row) (h : ∀ row, get (change row) = get row) :
    (Store.update db whose change).rows.filterMap get = db.rows.filterMap get := by
  unfold Store.update
  rw [List.filterMap_map]
  congr 1
  funext row
  show get (if whose row then change row else row) = get row
  by_cases hw : whose row
  · rw [if_pos hw, h row]
  · rw [if_neg hw]

@[simp] theorem tokens_update_user (p : AuthUser → Bool) (f : AuthUser → AuthUser) :
    Database.tokens (Store.update db (Row.isUser p) (Row.onUser f)) = db.tokens :=
  filterMap_update _ _ _ fun row => by cases row <;> rfl

@[simp] theorem tokens_update_verification (p : Verification → Bool)
    (f : Verification → Verification) :
    Database.tokens (Store.update db (Row.isVerification p) (Row.onVerification f)) = db.tokens :=
  filterMap_update _ _ _ fun row => by cases row <;> rfl

@[simp] theorem users_update_token (p : RefreshToken → Bool) (f : RefreshToken → RefreshToken) :
    Database.users (Store.update db (Row.isToken p) (Row.onToken f)) = db.users :=
  filterMap_update _ _ _ fun row => by cases row <;> rfl

@[simp] theorem users_update_verification (p : Verification → Bool)
    (f : Verification → Verification) :
    Database.users (Store.update db (Row.isVerification p) (Row.onVerification f)) = db.users :=
  filterMap_update _ _ _ fun row => by cases row <;> rfl

@[simp] theorem verifications_update_user (p : AuthUser → Bool) (f : AuthUser → AuthUser) :
    Database.verifications (Store.update db (Row.isUser p) (Row.onUser f)) = db.verifications :=
  filterMap_update _ _ _ fun row => by cases row <;> rfl

@[simp] theorem verifications_update_token (p : RefreshToken → Bool)
    (f : RefreshToken → RefreshToken) :
    Database.verifications (Store.update db (Row.isToken p) (Row.onToken f)) =
      db.verifications :=
  filterMap_update _ _ _ fun row => by cases row <;> rfl

@[simp] theorem nextKey_update (whose : Row → Bool) (change : Row → Row) :
    (Store.update db whose change).nextKey = db.nextKey := rfl

@[simp] theorem nextKey_insert (row : Row) : (Store.insert db row).nextKey = db.nextKey + 1 := rfl

end Tables

/-! ## The ways the repository reaches a table -/

namespace PrismaAuthRepository

variable {db : Database}

theorem head?_filterMap_filter {α : Type} (get : Row → Option α) (p : α → Bool)
    (whose : Row → Bool) (hg : ∀ row, whose row = (get row).any p) (rows : List Row) :
    ((rows.filter whose).filterMap get).head? = (rows.filterMap get).find? p := by
  induction rows with
  | nil => rfl
  | cons row rows ih =>
    have h := hg row
    rw [List.filter_cons, List.filterMap_cons]
    cases hr : get row with
    | none =>
      rw [hr, Option.any_none] at h
      rw [h]
      exact ih
    | some a =>
      rw [hr, Option.any_some] at h
      rw [h, List.find?_cons]
      cases hp : p a with
      | true => simp [hr]
      | false => simpa using ih

/-- The first row a `where` on one table matches, read through that table. -/
theorem find?_filterMap {α : Type} (get : Row → Option α) (p : α → Bool)
    (whose : Row → Bool) (hg : ∀ row, whose row = (get row).any p) (rows : List Row) :
    (rows.find? whose).bind get = (rows.filterMap get).find? p := by
  induction rows with
  | nil => rfl
  | cons row rows ih =>
    have h := hg row
    rw [List.find?_cons, List.filterMap_cons]
    cases hr : get row with
    | none =>
      rw [hr, Option.any_none] at h
      rw [h]
      exact ih
    | some a =>
      rw [hr, Option.any_some] at h
      rw [h, List.find?_cons]
      cases hp : p a with
      | true => exact hr
      | false => exact ih

theorem isUser_eq (p : AuthUser → Bool) (row : Row) :
    Row.isUser p row = (Row.user? row).any p := by
  cases row <;> rfl

theorem isVerification_eq (p : Verification → Bool) (row : Row) :
    Row.isVerification p row = (Row.verification? row).any p := by
  cases row <;> rfl

theorem isToken_eq (p : RefreshToken → Bool) (row : Row) :
    Row.isToken p row = (Row.token? row).any p := by
  cases row <;> rfl

@[simp] theorem run_findUser (p : AuthUser → Bool) :
    Store.run (findUser p) db = (.ok (db.users.find? p), db) := by
  unfold findUser
  rw [Store.run_bind, Store.run_findMany]
  show (Except.ok _, db) = _
  rw [head?_filterMap_filter Row.user? p _ (isUser_eq p)]
  rfl

/-- An update of one row of a table, and the row as it leaves it. -/
theorem run_update_only {α : Type} (get : Row → Option α) (p : α → Bool) (f : α → α)
    (whose : Row → Bool) (change : Row → Row) (hg : ∀ row, whose row = (get row).any p)
    (hc : ∀ row a, get row = some a → get (change row) = some (f a)) :
    Store.run (do only get (← Transaction.update whose change)) db =
      (Store.foundOr (((db.rows.filterMap get).find? p).map f), Store.update db whose change) := by
  rw [Store.run_bind, Store.run_update, ← find?_filterMap get p whose hg]
  cases hf : db.rows.find? whose with
  | none => rfl
  | some row =>
    have hw := List.find?_some hf
    rw [hg row] at hw
    cases hr : get row with
    | none => simp [hr] at hw
    | some a =>
      rw [Option.bind_some, hr]
      show Store.run (only get (change row)) (Store.update db whose change) = _
      unfold only
      rw [hc row a hr]
      rfl

theorem run_updateUser (p : AuthUser → Bool) (f : AuthUser → AuthUser) :
    Store.run (updateUser p f) db =
      (Store.foundOr ((db.users.find? p).map f), Store.update db (Row.isUser p) (Row.onUser f)) :=
  run_update_only Row.user? p f _ _ (isUser_eq p) fun row u h => by
    cases row <;> cases h
    rfl

theorem run_updateVerification (p : Verification → Bool) (f : Verification → Verification) :
    Store.run (updateVerification p f) db =
      (Store.foundOr ((db.verifications.find? p).map f), Store.update db (Row.isVerification p) (Row.onVerification f)) :=
  run_update_only Row.verification? p f _ _ (isVerification_eq p) fun row v h => by
    cases row <;> cases h
    rfl

theorem run_updateToken (p : RefreshToken → Bool) (f : RefreshToken → RefreshToken) :
    Store.run (updateToken p f) db =
      (Store.foundOr ((db.tokens.find? p).map f), Store.update db (Row.isToken p) (Row.onToken f)) :=
  run_update_only Row.token? p f _ _ (isToken_eq p) fun row t h => by
    cases row <;> cases h
    rfl

@[simp] theorem run_updateManyTokens (p : RefreshToken → Bool) (f : RefreshToken → RefreshToken) :
    Store.run (updateManyTokens p f) db =
      (.ok (db.rows.filter (Row.isToken p)).length,
        Store.update db (Row.isToken p) (Row.onToken f)) := Store.run_updateMany _ _

/-- A table after an update that throws where it matches nothing, done or undone. -/
theorem filterMap_atomically {α β : Type} (get : Row → Option α) {tx : Transaction Row β}
    {p : α → Bool} {f : α → α} {r : Option β} {whose : Row → Bool} {change : Row → Row}
    (hrun : Store.run tx db = (Store.foundOr r, Store.update db whose change))
    (hr : r = none → (db.rows.filterMap get).find? p = none)
    (hu : (Store.update db whose change).rows.filterMap get =
      (db.rows.filterMap get).map fun a => if p a then f a else a) :
    (Store.atomically tx db).2.rows.filterMap get =
      (db.rows.filterMap get).map fun a => if p a then f a else a := by
  cases r with
  | some b =>
    rw [Store.atomically_ok hrun]
    exact hu
  | none =>
    rw [Store.atomically_error hrun]
    have hnone := List.find?_eq_none.mp (hr rfl)
    conv_lhs => rw [← List.map_id (db.rows.filterMap get)]
    exact List.map_congr_left fun a ha => (if_neg (hnone a ha)).symm

theorem verifications_updateVerification (p : Verification → Bool)
    (f : Verification → Verification) :
    Database.verifications (Store.atomically (updateVerification p f) db).2 =
      db.verifications.map fun v => if p v then f v else v :=
  filterMap_atomically Row.verification? (run_updateVerification p f)
    (fun h => Option.map_eq_none_iff.mp h) (verifications_update_verification p f)

theorem users_updateUser (p : AuthUser → Bool) (f : AuthUser → AuthUser) :
    Database.users (Store.atomically (updateUser p f) db).2 =
      db.users.map fun u => if p u then f u else u :=
  filterMap_atomically Row.user? (run_updateUser p f)
    (fun h => Option.map_eq_none_iff.mp h) (users_update_user p f)

/-- The verification row an insert adds. -/
def verificationRow (id at_ authUserId : Nat) (input : NewVerificationRecord) : Verification where
  id
  authUserId
  codeHash := input.codeHash
  type := input.type
  newEmail := input.newEmail
  maxAttempts := input.maxAttempts
  issuedAt := at_
  expiresAt := input.expiresAt

/-- The token row an insert adds. -/
def tokenRow (id at_ : Nat) (input : NewRefreshTokenRecord) : RefreshToken where
  id
  authUserId := input.authUserId
  tokenHash := input.tokenHash
  familyId := input.familyId
  expiresAt := input.expiresAt
  ip := input.ip
  userAgent := input.userAgent
  createdAt := at_

theorem clashes_verification (rows : List Row) (v : Verification) :
    Store.clashes rows (.verification v) = none := by
  unfold Store.clashes
  rw [List.findSome?_eq_none_iff]
  intro row _
  rfl

theorem clashes_history (rows : List Row) (h : LoginHistory) :
    Store.clashes rows (.history h) = none := by
  unfold Store.clashes
  rw [List.findSome?_eq_none_iff]
  intro row _
  rfl

@[simp] theorem run_insertVerification (at_ authUserId : Nat) (input : NewVerificationRecord) :
    Store.run (insertVerification at_ authUserId input) db =
      (.ok (verificationRow db.nextKey at_ authUserId input),
        Store.insert db (.verification (verificationRow db.nextKey at_ authUserId input))) := by
  exact Store.run_bind_ok (Store.run_create (clashes_verification _ _))

/-- A code takes the place of those that are pending. -/
theorem run_replaceVerification (now id : Nat) (input : NewVerificationRecord) :
    Store.run (replaceVerification now id input) db =
      (.ok (verificationRow db.nextKey now id input),
        Store.insert (Store.update db (Row.isVerification (isPending id input.type))
          (Row.onVerification fun v => { v with status := .REVOKED }))
          (.verification (verificationRow db.nextKey now id input))) := by
  unfold replaceVerification
  rw [Store.run_bind_ok (Store.run_updateMany _ _), run_insertVerification]
  rfl

theorem run_insertToken {at_ : Nat} {input : NewRefreshTokenRecord}
    (h : Store.clashes db.rows (.token (tokenRow db.nextKey at_ input)) = none) :
    Store.run (insertToken at_ input) db =
      (.ok (tokenRow db.nextKey at_ input),
        Store.insert db (.token (tokenRow db.nextKey at_ input))) :=
  Store.run_bind_ok (Store.run_create h)

theorem run_insertToken_of_clash {at_ : Nat} {input : NewRefreshTokenRecord} {fields : String}
    (h : Store.clashes db.rows (.token (tokenRow db.nextKey at_ input)) = some fields) :
    Store.run (insertToken at_ input) db = (.error (.P2002 fields), db) :=
  Store.run_bind_error (Store.run_create_of_clash h)

/-! ## Transactions that keep a table -/

/-- A transaction leaves what `read` reads of the database as it is, and only ever adds keys. -/
def Keeps {β : Type} (read : Database → β) {α : Type} (tx : Transaction Row α) : Prop :=
  ∀ db, read (Store.run tx db).2 = read db ∧ db.nextKey ≤ (Store.run tx db).2.nextKey

section Keeps

variable {α β γ : Type} {read : Database → β}

theorem keeps_pure (a : α) : Keeps read (pure a : Transaction Row α) :=
  fun _ => ⟨rfl, Nat.le_refl _⟩

theorem keeps_throw (e : DatabaseError) : Keeps read (throw e : Transaction Row α) :=
  fun _ => ⟨rfl, Nat.le_refl _⟩

theorem Keeps.bind {tx : Transaction Row α} {f : α → Transaction Row γ} (h : Keeps read tx)
    (hf : ∀ a, Keeps read (f a)) : Keeps read (tx >>= f) := by
  intro db
  obtain ⟨hr, hk⟩ := h db
  cases hrun : Store.run tx db with
  | mk r db' =>
    rw [hrun] at hr hk
    cases r with
    | error e =>
      rw [Store.run_bind_error hrun]
      exact ⟨hr, hk⟩
    | ok a =>
      rw [Store.run_bind_ok hrun]
      exact ⟨(hf a db').1.trans hr, Nat.le_trans hk (hf a db').2⟩

theorem keeps_findMany (whose : Row → Bool) : Keeps read (Transaction.findMany whose) := by
  intro db
  rw [Store.run_findMany]
  exact ⟨rfl, Nat.le_refl _⟩

theorem keeps_update {whose : Row → Bool} {change : Row → Row}
    (h : ∀ db, read (Store.update db whose change) = read db) :
    Keeps read (Transaction.update whose change) := by
  intro db
  rw [Store.run_update]
  exact ⟨h db, Nat.le_refl _⟩

theorem keeps_updateMany {whose : Row → Bool} {change : Row → Row}
    (h : ∀ db, read (Store.update db whose change) = read db) :
    Keeps read (Transaction.updateMany whose change) := by
  intro db
  rw [Store.run_updateMany]
  exact ⟨h db, Nat.le_refl _⟩

theorem keeps_create {row : Nat → Row} (h : ∀ db id, read (Store.insert db (row id)) = read db) :
    Keeps read (Transaction.create row) := by
  intro db
  cases hc : Store.clashes db.rows (row db.nextKey) with
  | none =>
    rw [Store.run_create hc]
    exact ⟨h db _, Nat.le_succ _⟩
  | some fields =>
    rw [Store.run_create_of_clash hc]
    exact ⟨rfl, Nat.le_refl _⟩

theorem keeps_only (get : Row → Option α) (row : Row) : Keeps read (only get row) := by
  unfold only
  cases get row with
  | some a => exact keeps_pure a
  | none => exact keeps_throw _

theorem keeps_findUser (p : AuthUser → Bool) : Keeps read (findUser p) :=
  (keeps_findMany _).bind fun _ => keeps_pure _

theorem keeps_updateUser {p : AuthUser → Bool} {f : AuthUser → AuthUser}
    (h : ∀ db, read (Store.update db (Row.isUser p) (Row.onUser f)) = read db) :
    Keeps read (updateUser p f) := (keeps_update h).bind fun _ => keeps_only _ _

theorem keeps_updateVerification {p : Verification → Bool} {f : Verification → Verification}
    (h : ∀ db, read (Store.update db (Row.isVerification p) (Row.onVerification f)) = read db) :
    Keeps read (updateVerification p f) := (keeps_update h).bind fun _ => keeps_only _ _

theorem keeps_updateToken {p : RefreshToken → Bool} {f : RefreshToken → RefreshToken}
    (h : ∀ db, read (Store.update db (Row.isToken p) (Row.onToken f)) = read db) :
    Keeps read (updateToken p f) := (keeps_update h).bind fun _ => keeps_only _ _

theorem keeps_insertVerification {at_ authUserId : Nat} {input : NewVerificationRecord}
    (h : ∀ db v, read (Store.insert db (.verification v)) = read db) :
    Keeps read (insertVerification at_ authUserId input) :=
  (keeps_create fun db _ => h db _).bind fun _ => keeps_only _ _

theorem keeps_insertToken {at_ : Nat} {input : NewRefreshTokenRecord}
    (h : ∀ db t, read (Store.insert db (.token t)) = read db) :
    Keeps read (insertToken at_ input) :=
  (keeps_create fun db _ => h db _).bind fun _ => keeps_only _ _

/-- A transaction that keeps a table keeps it whether or not it is taken back. -/
theorem Keeps.atomically {tx : Transaction Row α} (h : Keeps read tx) (db : Database) :
    read (Store.atomically tx db).2 = read db ∧
      db.nextKey ≤ (Store.atomically tx db).2.nextKey := by
  obtain ⟨hr, hk⟩ := h db
  cases hrun : Store.run tx db with
  | mk r db' =>
    rw [hrun] at hr hk
    cases r with
    | ok a =>
      rw [Store.atomically_ok hrun]
      exact ⟨hr, hk⟩
    | error e =>
      rw [Store.atomically_error hrun]
      exact ⟨rfl, Nat.le_refl _⟩

end Keeps

/-! ## Transactions under which a table only grows -/

/-- A transaction changes the rows of a table as `same` allows, and adds rows under new keys. -/
def Grows {β : Type} (key : β → Nat) (same : β → β → Prop) (read : Database → List β) {α : Type}
    (tx : Transaction Row α) : Prop :=
  ∀ db, Grown key same db.nextKey (Store.run tx db).2.nextKey (read db) (read (Store.run tx db).2)

section Grows

variable {α β γ : Type} {key : β → Nat} {same : β → β → Prop} {read : Database → List β}

theorem Keeps.grows {tx : Transaction Row α} (h : Keeps read tx) (hl : Lasting key same) :
    Grows key same read tx := fun db => Foundations.grown_of_eq hl (h db).2 (h db).1

theorem Grows.bind {tx : Transaction Row α} {f : α → Transaction Row γ}
    (h : Grows key same read tx) (hl : Lasting key same) (hf : ∀ a, Grows key same read (f a)) :
    Grows key same read (tx >>= f) := by
  intro db
  have hdb := h db
  cases hrun : Store.run tx db with
  | mk r db' =>
    rw [hrun] at hdb
    cases r with
    | error e =>
      rw [Store.run_bind_error hrun]
      exact hdb
    | ok a =>
      rw [Store.run_bind_ok hrun]
      exact hdb.trans hl (hf a db')

theorem grows_update {whose : Row → Bool} {change : Row → Row} {f : β → β}
    (h : ∀ db, read (Store.update db whose change) = (read db).map f) (hs : ∀ b, same b (f b)) :
    Grows key same read (Transaction.update whose change) := by
  intro db
  rw [Store.run_update]
  exact Foundations.grown_of_map (Nat.le_refl _) (fun b _ => hs b) (h db)

theorem grows_updateMany {whose : Row → Bool} {change : Row → Row} {f : β → β}
    (h : ∀ db, read (Store.update db whose change) = (read db).map f) (hs : ∀ b, same b (f b)) :
    Grows key same read (Transaction.updateMany whose change) := by
  intro db
  rw [Store.run_updateMany]
  exact Foundations.grown_of_map (Nat.le_refl _) (fun b _ => hs b) (h db)

theorem grows_create {row : Nat → Row} (new : Nat → β) (hl : Lasting key same)
    (h : ∀ db id, read (Store.insert db (row id)) = read db ++ [new id])
    (hkey : ∀ id, key (new id) = id) : Grows key same read (Transaction.create row) := by
  intro db
  cases hc : Store.clashes db.rows (row db.nextKey) with
  | none =>
    rw [Store.run_create hc]
    refine Foundations.grown_of_append hl (a := new db.nextKey) (Nat.le_of_eq (hkey _).symm) ?_
      (h db _)
    rw [hkey]
    exact Nat.lt_succ_self _
  | some fields =>
    rw [Store.run_create_of_clash hc]
    exact Foundations.grown_of_eq hl (Nat.le_refl _) rfl

/-- A transaction that is taken back leaves the table as it was. -/
theorem Grows.atomically {tx : Transaction Row α} (h : Grows key same read tx)
    (hl : Lasting key same) (db : Database) :
    Grown key same db.nextKey (Store.atomically tx db).2.nextKey (read db)
      (read (Store.atomically tx db).2) := by
  have hdb := h db
  cases hrun : Store.run tx db with
  | mk r db' =>
    rw [hrun] at hdb
    cases r with
    | ok a =>
      rw [Store.atomically_ok hrun]
      exact hdb
    | error e =>
      rw [Store.atomically_error hrun]
      exact Foundations.grown_of_eq hl (Nat.le_refl _) rfl

end Grows

end PrismaAuthRepository

end PracticalMicroservice.Auth
