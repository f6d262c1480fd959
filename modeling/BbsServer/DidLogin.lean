import BbsServer.Did

/-!
# What a line before the login can do

`process_user_name`, `create_user` and `login`.
-/

namespace BbsServer

open CStr Function

section
variable {P : Platform} {ans : Answers} {w w' : World} {s s' : Session} {l : Bytes}

theorem dbUserCreate_cases {ret : Int} {args : DbUserCreate} (h : dbUserCreate P ans w s args = .ok (ret, w')) :
    (ret = 0 ∧ w' = w) ∨ ∃ row users, w.users.insert row = some users ∧ row = newUser P args ret ∧
      ans.insert = some ret ∧ 0 < ret ∧
        w' = if ans.committed then { w with users, trace := .insertedUser s.sd row :: w.trace } else w := by
  unfold dbUserCreate at h
  cases hi : ans.insert with
  | none => simp only [hi] at h; cases h; exact .inl ⟨rfl, rfl⟩
  | some id =>
    simp only [hi] at h
    split at h
    · rename_i users hu
      cases h
      exact .inr ⟨_, users, hu, rfl, rfl, (UserTable.insert_rows hu).2, rfl⟩
    · cases h

theorem createUser_did {ret : Int} (hst : s.state = .opLoginUsr) (hx : isExit l = false)
    (h : createUser P ans w s l = .ok (ret, w', s')) : Did P ans w s (some l) w' s' := by
  have talked : ∀ {w₁}, Talks w w₁ → Did P ans w s (some l) w₁ s := fun ht =>
    .talked (by simp [hst]) (by simp [hst]) (by simp [hst]) (quiet_of_name hst hx) ht
  unfold createUser createUserWith at h
  obtain ⟨p, hscan, h₁⟩ := bind_ok.mp h
  clear h
  cases p with
  | none => cases h₁; exact talked (.refl w)
  | some p =>
    obtain ⟨⟨res, w₁⟩, hc, h⟩ := bind_ok.mp h₁
    clear h₁
    rcases dbUserCreate_cases hc with ⟨rfl, rfl⟩ | ⟨row, users, hu, hrow, hi, hpos, rfl⟩
    · dsimp only at h
      rw [if_neg (show ¬ (0 : Int) > 0 by decide), if_neg (show ¬ (0 : Int) = -2 by decide),
        if_neg (show ¬ (0 : Int) = -3 by decide)] at h
      obtain ⟨w₂, ht, h⟩ := bind_ok.mp h
      cases h
      exact talked (sessionSendString_talks ht)
    · simp only [gt_iff_lt, hpos, if_true] at h
      obtain ⟨w₂, ht, h⟩ := bind_ok.mp h
      cases h
      subst hrow
      have hasks : AsksRow P ans l (newUser P p ret) := ⟨p, hscan, hi, rfl⟩
      cases hcom : ans.committed with
      | true =>
        rw [hcom, if_pos rfl] at ht
        exact .registered hst rfl hx hu (sessionSendString_talks ht) hasks hcom
      | false =>
        rw [hcom, if_neg (by decide)] at ht
        exact .rolledBack hst rfl hx hu hcom (sessionSendString_talks ht) hasks

theorem processUserName_did {ret : Int} (hst : s.state = .opLoginUsr)
    (h : processUserName P ans w s l = .ok (ret, w', s')) : Did P ans w s (some l) w' s' := by
  unfold processUserName processUserNameWith at h
  by_cases he : isExit l
  · simp only [he, if_true] at h
    obtain ⟨w₁, ht, h⟩ := bind_ok.mp h
    cases h
    exact .left (.inl hst) rfl he (sessionSendString_talks ht)
  by_cases hr : isRegister l
  · simp only [he, hr, if_true, if_false, Bool.false_eq_true] at h
    exact createUser_did hst (by simpa using he) h
  by_cases ha : isAnonymous l
  · simp only [he, hr, ha, if_true, if_false, Bool.false_eq_true] at h
    obtain ⟨w₁, ht, h⟩ := bind_ok.mp h
    cases h
    exact .anonymous hst rfl (by simpa using he) (by simpa using hr) ha (sessionSendString_talks ht)
  · simp only [he, hr, ha, if_false, Bool.false_eq_true] at h
    obtain ⟨w₁, ht, h⟩ := bind_ok.mp h
    cases h
    exact .named hst rfl (by simpa using he) (sessionSendString_talks ht)

theorem login_did {ret : Int} (hst : s.state = .opLoginPss) (h : login P ans w s l = .ok (ret, w', s')) :
    Did P ans w s (some l) w' s' := by
  unfold login loginWith at h
  rw [tables_dbUserAuth, ok_bind] at h
  dsimp only at h
  by_cases hu : (dbUserAuth P ans w s.uname l { privileges := 0, uid := 0 }).uid ≠ 0
  · rw [if_pos hu] at h
    obtain ⟨u, hu', h⟩ := bind_ok.mp h
    obtain ⟨w₁, ht, h⟩ := bind_ok.mp h
    cases h
    exact .welcomed hst rfl (deref_ok.mp hu') hu (sessionSendString_talks ht)
  · rw [if_neg hu] at h
    obtain ⟨w₁, ht, h⟩ := bind_ok.mp h
    cases h
    exact .loginAgain hst (sessionSendString_talks ht)

end

end BbsServer
