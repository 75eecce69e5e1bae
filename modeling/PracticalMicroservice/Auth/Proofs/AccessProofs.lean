import PracticalMicroservice.Auth.Accesses
import PracticalMicroservice.Auth.Proofs.WorldProofs

/-!
# Every call accesses what fits it

The transactions of the calls, statement by statement.
-/

namespace PracticalMicroservice.Auth

open Foundations (Access Accessed Accesses DatabaseError Transaction Updated accessed_bind
  accessed_create accessed_findMany accessed_pure accessed_statement accessed_throw accessed_update
  accessed_updateMany visits Left)
open PrismaAuthRepository

variable {α : Type} {task : Call × Nat} {past made : Accesses Row}

theorem Inserted.mono {new : Row} (h : Inserted past new) (hsub : ∀ m ∈ past, m ∈ made) :
    Inserted made new := by
  obtain ⟨row, hm⟩ := h
  exact ⟨row, hsub _ hm⟩

theorem inserted_cons (row : Nat → Row) (new : Row) :
    Inserted (⟨.insert row, .ok new⟩ :: past) new := ⟨row, List.mem_cons_self⟩

theorem Sighted.mono {row : Row} (h : Sighted past row) (hsub : ∀ m ∈ past, m ∈ made) :
    Sighted made row := by
  obtain ⟨whose, rows, hm, hrow⟩ := h
  exact ⟨whose, rows, hsub _ hm, hrow⟩

theorem Answers.credible {call : Call} {result : call.Result} (h : Answers made call result) :
    PlausibleResult call result := by
  cases call with
  | findAuthUserById id =>
    cases result with
    | none => trivial
    | some u => exact h.1
  | findAuthUserByEmail email =>
    cases result with
    | none => trivial
    | some u => exact h.1
  | findRefreshTokenByHash hash =>
    cases result with
    | none => trivial
    | some t => exact h.1
  | _ => exact h

theorem Answers.mono {call : Call} {result : call.Result} (h : Answers past call result)
    (hsub : ∀ m ∈ past, m ∈ made) : Answers made call result := by
  cases call with
  | findAuthUserById id =>
    cases result with
    | none => trivial
    | some u => exact ⟨h.1, h.2.mono hsub⟩
  | findAuthUserByEmail email =>
    cases result with
    | none => trivial
    | some u => exact ⟨h.1, h.2.mono hsub⟩
  | findRefreshTokenByHash hash =>
    cases result with
    | none => trivial
    | some t => exact ⟨h.1, h.2.mono hsub⟩
  | _ => exact h

/-- What an update has made before one of its visits. -/
theorem mem_visits (whose : Row → Bool) (change : Row → Row) (indices : List Nat)
    (seen : List (Nat × Option Row)) :
    ∀ m ∈ past, m ∈ visits whose change seen ++ ⟨.targets whose, indices⟩ :: past :=
  fun _ hm => List.mem_append_right _ (List.mem_cons_of_mem _ hm)

/-- A statement that is the first visits each row once. -/
theorem not_visited {whose : Row → Bool} {change : Row → Row} {indices : List Nat}
    {seen : List (Nat × Option Row)} {index : Nat} (hindex : index ∉ seen.map Prod.fst)
    (whose' : Row → Bool) (change' : Row → Row) (reply : Option Row) :
    (⟨.visit index whose' change', reply⟩ : (a : Access Row) × a.Reply) ∉
      visits whose change seen ++ [⟨.targets whose, indices⟩] := by
  intro hm
  rcases List.mem_append.mp hm with hm | hm
  · obtain ⟨one, hone, he⟩ := List.mem_map.mp hm
    obtain ⟨ha, -⟩ := Sigma.mk.inj he
    injection ha with hi
    exact hindex (hi ▸ List.mem_map_of_mem hone)
  · cases List.mem_singleton.mp hm

/-! ## The tables -/

theorem accessed_only {get : Row → Option α} {row : Row} {ok : α → Accesses Row → Prop}
    (h : ∀ a, get row = some a → ok a past) : Accessed Fits task (only get row) ok past := by
  unfold only
  cases hget : get row with
  | some a => exact accessed_pure (h a hget)
  | none => exact accessed_throw

theorem accessed_findUser {p : AuthUser → Bool} {ok : Option AuthUser → Accesses Row → Prop}
    (h : ∀ found made, (∀ u, found = some u → p u = true ∧ Sighted made (.user u)) →
      ok found made) : Accessed Fits task (findUser p) ok [] := by
  refine accessed_bind (accessed_findMany rfl fun rows hrows => accessed_pure (h _ _ ?_))
  intro u hu
  obtain ⟨row, hrow, hget⟩ := List.mem_filterMap.mp (List.mem_of_mem_head? hu)
  obtain rfl : row = .user u := by
    cases row <;> simp [Row.user?] at hget
    rw [hget]
  exact ⟨hrows _ hrow, _, rows, List.mem_cons_self, hrow⟩

/-- A visit changes its row as it may, and a call that counts has not been there. -/
theorem fits_visit {whose : Row → Bool} {change : Row → Row} {indices : List Nat}
    {seen : List (Nat × Option Row)} {index : Nat} (hindex : index ∉ seen.map Prod.fst)
    (hfirst : task.1.counts = true → past = [])
    (hchange : ∀ made row, whose row = true → (∀ m ∈ past, m ∈ made) →
      Changes task.1 task.2 made row (change row)) :
    Fits task (visits whose change seen ++ ⟨.targets whose, indices⟩ :: past)
      (.visit index whose change) := by
  refine ⟨fun row hrow => hchange _ row hrow (mem_visits whose change indices seen), fun hcounts => ?_⟩
  rw [hfirst hcounts]
  exact not_visited hindex

theorem accessed_updateUser {p : AuthUser → Bool} {f : AuthUser → AuthUser}
    {ok : AuthUser → Accesses Row → Prop} (hfirst : task.1.counts = true → past = [])
    (hf : ∀ u, p u = true → (f u).id = u.id ∧
      (f u).failedLoginAttempts = task.1.tallies (.user u.id) u.failedLoginAttempts)
    (h : ∀ u after, Updated (Row.isUser p) (Row.onUser f) past after → p u = true →
      Left after (.user (f u)) → ok (f u) after) : Accessed Fits task (updateUser p f) ok past := by
  refine accessed_bind (accessed_update trivial (fun index indices seen hindex =>
    fits_visit hindex hfirst fun made row hrow _ => ?_)
    fun old after hupdated hold hleft => accessed_only fun u hu => ?_)
  · cases row with
    | user u => exact .user (hf u hrow).1 (hf u hrow).2
    | _ => cases hrow
  · cases old with
    | user u₀ =>
      obtain rfl := Option.some.inj hu
      exact h u₀ after hupdated hold hleft
    | _ => cases hold

theorem accessed_updateVerification {p : Verification → Bool} {f : Verification → Verification}
    {ok : Verification → Accesses Row → Prop} (hfirst : task.1.counts = true → past = [])
    (hf : ∀ made v, p v = true →
      Changes task.1 task.2 made (.verification v) (.verification (f v)))
    (h : ∀ v after, Updated (Row.isVerification p) (Row.onVerification f) past after →
      p v = true → Left after (.verification (f v)) → ok (f v) after) :
    Accessed Fits task (updateVerification p f) ok past := by
  refine accessed_bind (accessed_update trivial (fun index indices seen hindex =>
    fits_visit hindex hfirst fun made row hrow _ => ?_)
    fun old after hupdated hold hleft => accessed_only fun v hv => ?_)
  · cases row with
    | verification v => exact hf _ v hrow
    | _ => cases hrow
  · cases old with
    | verification v₀ =>
      obtain rfl := Option.some.inj hv
      exact h v₀ after hupdated hold hleft
    | _ => cases hold

theorem accessed_updateManyTokens {p : RefreshToken → Bool} {f : RefreshToken → RefreshToken}
    {ok : Nat → Accesses Row → Prop} (hcounts : task.1.counts = false)
    (hf : ∀ made t, p t = true → Changes task.1 task.2 made (.token t) (.token (f t)))
    (h : ∀ n after, Updated (Row.isToken p) (Row.onToken f) past after → ok n after) :
    Accessed Fits task (updateManyTokens p f) ok past := by
  refine accessed_updateMany trivial (fun index indices seen hindex =>
    fits_visit hindex (fun hc => Bool.noConfusion (hcounts.symm.trans hc)) fun made row hrow _ => ?_) h
  cases row with
  | token t => exact hf _ t hrow
  | _ => cases hrow

theorem accessed_insertVerification {at_ authUserId : Nat} {input : NewVerificationRecord}
    {ok : Verification → Accesses Row → Prop}
    (hallow : Fits task past
      (.insert fun key => .verification (verificationRow key at_ authUserId input)))
    (h : ∀ v made, ok v made) :
    Accessed Fits task (insertVerification at_ authUserId input) ok past :=
  accessed_bind (accessed_create hallow fun _ => accessed_only fun _ _ => h _ _)

theorem accessed_insertToken {at_ : Nat} {input : NewRefreshTokenRecord}
    {ok : RefreshToken → Accesses Row → Prop}
    (hallow : Fits task past (.insert fun key => .token (tokenRow key at_ input)))
    (h : ∀ key made, Inserted made (.token (tokenRow key at_ input)) →
      (∀ m ∈ past, m ∈ made) → ok (tokenRow key at_ input) made) :
    Accessed Fits task (insertToken at_ input) ok past := by
  refine accessed_bind (accessed_create hallow fun key => accessed_only fun t ht => ?_)
  obtain rfl := Option.some.inj ht
  exact h key _ (inserted_cons _ _) fun m hm => List.mem_cons_of_mem _ hm

/-! ## The methods -/

/-- A code is spent only when it is pending. -/
theorem changes_spend {call : Call} {now at_ verificationId : Nat}
    (hcall : call.consumes = some verificationId) (made : Accesses Row) (v : Verification)
    (hv : decide (v.id = verificationId ∧ v.status = .PENDING) = true) :
    Changes call now made (.verification v)
      (.verification { v with status := .VERIFIED, verifiedAt := some at_ }) := by
  obtain ⟨rfl, hpending⟩ := of_decide_eq_true hv
  exact .spent hpending hcall

theorem changes_revoke {call : Call} {now at_ : Nat} {reason : RevokeReason}
    {p : RefreshToken → Prop} [DecidablePred p] (hcall : ∀ id next, call ≠ .rotateRefreshToken id next)
    (made : Accesses Row) (t : RefreshToken) (ht : decide (p t ∧ isLive t = true) = true) :
    Changes call now made (.token t) (.token (revoke at_ reason t)) :=
  .revoked (of_decide_eq_true ht).2 hcall

/-- The update that revokes wholesale, and what may follow it in its transaction. -/
theorem sweptAll_updated {p : RefreshToken → Prop} [DecidablePred p] {change : Row → Row}
    {before after : Accesses Row}
    (h : Updated (Row.isToken fun t => decide (p t ∧ isLive t = true)) change before after) :
    SweptAll (fun t => decide (p t)) after := by
  refine ⟨_, change, before, after, [], rfl, h, fun t => ?_⟩
  show decide (p t ∧ isLive t = true) = _
  by_cases hp : p t <;> simp [hp]

theorem SweptAll.updated {sel : RefreshToken → Bool} {whose : Row → Bool} {change : Row → Row}
    {before after : Accesses Row} (h : SweptAll sel before) (hu : Updated whose change before after) :
    SweptAll sel after := by
  obtain ⟨whose', change', first, swept, later, rfl, hrest⟩ := h
  obtain ⟨indices, seen, rfl, -⟩ := hu
  exact ⟨whose', change', first, swept, visits whose change seen ++ ⟨.targets whose, indices⟩ :: later,
    by simp, hrest⟩

theorem accessed_createAuthUserWithVerification (now : Nat) (user : NewAuthUserRecord)
    (verification : NewVerificationRecord) :
    Accessed Fits (.createAuthUserWithVerification user verification, now)
      (createAuthUserWithVerification now user verification) (fun _ _ => True) [] := by
  refine accessed_bind (accessed_create (.inl ⟨rfl, fun key => ⟨_, rfl, rfl⟩⟩) fun key =>
    accessed_bind (accessed_only fun u hu => ?_))
  obtain rfl := Option.some.inj hu
  refine accessed_bind (accessed_insertVerification (.inr ⟨_, inserted_cons _ _, ?_, fun _ => rfl⟩)
    fun _ _ => accessed_pure trivial)
  rintro v ⟨row, hm⟩
  rcases List.mem_cons.mp hm with he | hm
  · cases he
  · cases hm

theorem accessed_replaceVerification (now authUserId : Nat) (input : NewVerificationRecord) :
    Accessed Fits (.replaceVerification authUserId input, now)
      (replaceVerification now authUserId input) (fun _ _ => True) [] := by
  refine accessed_bind (accessed_updateMany trivial (fun index indices seen hindex =>
    fits_visit hindex (fun hc => nomatch hc) fun made row hrow _ => ?_)
    fun count after hupdated => ?_)
  · cases row with
    | verification v =>
      obtain ⟨rfl, htype, hpending⟩ := of_decide_eq_true hrow
      exact .superseded hpending rfl htype.symm
    | _ => cases hrow
  · exact accessed_insertVerification ⟨fun _ => rfl, _, hupdated⟩ fun _ _ => trivial

theorem accessed_rotateRefreshToken (now currentId : Nat) (next : NewRefreshTokenRecord) :
    Accessed Fits (.rotateRefreshToken currentId next, now)
      (rotateRefreshToken now currentId next)
      (fun _ made => Completes made (.rotateRefreshToken currentId next)) [] := by
  refine accessed_bind (accessed_insertToken ⟨rfl, fun _ => rfl⟩ fun key made hinserted _ => ?_)
  refine accessed_bind (accessed_bind (accessed_update trivial (fun index indices seen hindex =>
    fits_visit hindex (fun hc => nomatch hc) fun made' row hrow hsub => ?_)
    fun old after hupdated hold hleft => accessed_only fun t ht => accessed_pure ?_))
  · cases row with
    | token t =>
      obtain ⟨rfl, hlive⟩ := of_decide_eq_true hrow
      exact .rotated hlive rfl (hinserted.mono hsub) rfl rfl
    | _ => cases hrow
  · obtain ⟨indices, seen, rfl, -⟩ := hupdated
    cases old with
    | token t₀ =>
      refine ⟨_, _, hleft, hinserted.mono (mem_visits _ _ _ _), ?_, rfl, rfl⟩
      exact (of_decide_eq_true hold).1
    | _ => cases hold

theorem accessed_consumePasswordReset (now verificationId authUserId : Nat) (passwordHash : String)
    (at_ : Nat) :
    Accessed Fits (.consumePasswordReset verificationId authUserId passwordHash at_, now)
      (consumePasswordReset verificationId authUserId passwordHash at_)
      (fun _ made => (∃ u, Left made (.user u) ∧ u.id = authUserId) ∧
        SweptAll (·.authUserId = authUserId) made) [] := by
  refine accessed_bind (accessed_updateVerification (fun hc => nomatch hc) (changes_spend rfl)
    fun v past _ _ _ => ?_)
  refine accessed_bind (accessed_updateManyTokens rfl (changes_revoke fun _ _ h => nomatch h)
    fun n swept hswept => ?_)
  refine accessed_updateUser (fun hc => nomatch hc) (fun u hu => ⟨rfl, ?_⟩)
    fun u after hafter hu hleft =>
      ⟨⟨_, hleft, of_decide_eq_true hu⟩, (sweptAll_updated hswept).updated hafter⟩
  exact (if_pos (of_decide_eq_true hu)).symm

/-- What fits a call may end it: it has revoked what it revokes wholesale. -/
def Ready (task : Call × Nat) (result : task.1.Result) (made : Accesses Row) : Prop :=
  Fits task made .commit ∧ Answers made task.1 result

/-- Every call accesses what fits it, and answers with what it was asked for. -/
theorem accessed_transaction (call : Call) (now : Nat) :
    Accessed Fits (call, now) (call.transaction now) (fun result made => Ready (call, now) result made)
      [] := by
  have hplain : ∀ {made : Accesses Row}, call.sweeps = none → Completes made call →
      Fits (call, now) made .commit :=
    fun h hcompletes => ⟨hcompletes, fun sel hsel => nomatch h.symm.trans hsel⟩
  have hid : ∀ {u : AuthUser} {id : Nat}, decide (u.id = id) = true → u.id = id :=
    of_decide_eq_true
  cases call with
  | createAuthUserWithVerification user verification =>
    exact (accessed_createAuthUserWithVerification now user verification).mono fun _ _ _ =>
      ⟨hplain rfl trivial, trivial⟩
  | findAuthUserById id =>
    refine accessed_findUser fun found made hfound => ⟨hplain rfl trivial, ?_⟩
    cases found with
    | none => trivial
    | some u =>
      obtain ⟨hid, hsighted⟩ := hfound u rfl
      exact ⟨of_decide_eq_true hid, hsighted⟩
  | findAuthUserByEmail email =>
    refine accessed_findUser fun found made hfound => ⟨hplain rfl trivial, ?_⟩
    cases found with
    | none => trivial
    | some u =>
      obtain ⟨hemail, hsighted⟩ := hfound u rfl
      exact ⟨of_decide_eq_true hemail, hsighted⟩
  | findAuthUserByUsername username =>
    exact accessed_findUser fun found made _ => ⟨hplain rfl trivial, by cases found <;> trivial⟩
  | attachProfile id userId =>
    exact accessed_updateUser (fun _ => rfl) (fun _ _ => ⟨rfl, rfl⟩) fun u after _ hu _ =>
      ⟨hplain rfl trivial, hid hu⟩
  | recordLoginAttempt input =>
    exact accessed_bind (accessed_create (fun key => ⟨_, rfl, rfl⟩) fun key =>
      accessed_pure ⟨hplain rfl trivial, trivial⟩)
  | registerFailedLogin id lockUntil =>
    exact accessed_updateUser (fun _ => rfl) (fun u hu => ⟨rfl, (if_pos (hid hu)).symm⟩)
      fun u after _ hu hleft => ⟨hplain rfl ⟨_, hleft, hid hu⟩, hid hu⟩
  | registerSuccessfulLogin id at_ =>
    exact accessed_updateUser (fun _ => rfl) (fun u hu => ⟨rfl, (if_pos (hid hu)).symm⟩)
      fun u after _ hu hleft => ⟨hplain rfl ⟨_, hleft, hid hu⟩, hid hu⟩
  | findActiveVerification authUserId type =>
    refine accessed_bind (accessed_findMany rfl fun rows hrows =>
      accessed_pure ⟨hplain rfl trivial, ?_⟩)
    cases hnewest : newest (rows.filterMap Row.verification?) with
    | none => trivial
    | some v =>
      obtain ⟨row, hrow, hget⟩ := List.mem_filterMap.mp (newest_mem hnewest)
      have hpending := hrows row hrow
      cases row with
      | verification v' =>
        obtain rfl := Option.some.inj hget
        exact hpending
      | _ => cases hget
  | replaceVerification authUserId input =>
    exact (accessed_replaceVerification now authUserId input).mono fun _ _ _ => ⟨hplain rfl trivial, trivial⟩
  | registerVerificationAttempt id exhausted =>
    refine accessed_updateVerification (fun _ => rfl) (fun made v hv => ?_) fun v after _ hv hleft =>
      ⟨hplain rfl ⟨_, hleft, of_decide_eq_true hv⟩, trivial⟩
    obtain rfl := of_decide_eq_true hv
    exact .counted rfl
  | attachVerificationEmail id emailMessageId =>
    refine accessed_bind (accessed_updateVerification (fun _ => rfl) (fun made v hv => ?_)
      fun v after _ _ _ => accessed_pure ⟨hplain rfl trivial, trivial⟩)
    obtain rfl := of_decide_eq_true hv
    exact .mailed rfl
  | consumeEmailVerification verificationId authUserId at_ =>
    refine accessed_bind (accessed_updateVerification (fun _ => rfl) (changes_spend rfl)
      fun v past _ _ _ => ?_)
    exact accessed_updateUser (fun hc => nomatch hc) (fun _ _ => ⟨rfl, rfl⟩) fun u after _ hu _ =>
      ⟨hplain rfl trivial, hid hu⟩
  | consumePasswordReset verificationId authUserId passwordHash at_ =>
    refine (accessed_consumePasswordReset now verificationId authUserId passwordHash at_).mono ?_
    rintro u made ⟨hcompletes, hswept⟩
    refine ⟨⟨hcompletes, ?_⟩, trivial⟩
    rintro sel ⟨⟩
    exact hswept
  | createRefreshToken input =>
    exact accessed_insertToken ⟨rfl, fun _ => rfl⟩ fun _ _ _ _ => ⟨hplain rfl trivial, trivial⟩
  | findRefreshTokenByHash tokenHash =>
    refine accessed_bind (accessed_findMany rfl fun rows hrows =>
      accessed_pure ⟨hplain rfl trivial, ?_⟩)
    cases hhead : (rows.filterMap Row.token?).head? with
    | none => trivial
    | some t =>
      obtain ⟨row, hrow, hget⟩ := List.mem_filterMap.mp (List.mem_of_mem_head? hhead)
      have hhash := hrows row hrow
      cases row with
      | token t' =>
        obtain rfl := Option.some.inj hget
        exact ⟨of_decide_eq_true hhash, _, rows, List.mem_cons_self, hrow⟩
      | _ => cases hget
  | rotateRefreshToken currentId next =>
    exact (accessed_rotateRefreshToken now currentId next).mono fun _ _ hcompletes =>
      ⟨hplain rfl hcompletes, trivial⟩
  | revokeRefreshToken id reason =>
    exact accessed_bind (accessed_updateManyTokens rfl (changes_revoke fun _ _ h => nomatch h)
      fun _ _ _ => accessed_pure ⟨hplain rfl trivial, trivial⟩)
  | revokeFamily familyId reason =>
    refine accessed_updateManyTokens rfl (changes_revoke fun _ _ h => nomatch h) fun n after hswept =>
      ⟨⟨trivial, ?_⟩, trivial⟩
    rintro sel ⟨⟩
    exact sweptAll_updated hswept
  | revokeAllForUser authUserId reason =>
    refine accessed_updateManyTokens rfl (changes_revoke fun _ _ h => nomatch h) fun n after hswept =>
      ⟨⟨trivial, ?_⟩, trivial⟩
    rintro sel ⟨⟩
    exact sweptAll_updated hswept
  | updatePassword authUserId passwordHash at_ =>
    refine accessed_bind (accessed_updateManyTokens rfl (changes_revoke fun _ _ h => nomatch h)
      fun n past hswept => ?_)
    refine accessed_updateUser (fun hc => nomatch hc) (fun _ _ => ⟨rfl, rfl⟩)
      fun u after hafter hu _ => ⟨⟨trivial, ?_⟩, hid hu⟩
    rintro sel ⟨⟩
    exact (sweptAll_updated hswept).updated hafter

end PracticalMicroservice.Auth
