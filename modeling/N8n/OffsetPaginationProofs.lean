import Mathlib.Data.List.Basic

/-! # Offset pagination — pages counted by what is left of them

    The loop asks for the next slice of a remote list until a page comes out
    of the post-receive actions with another number of items than a page
    has.  The offset goes on by whole pages, and near `maxResults` only as
    many items are asked for as are missing.

    Item-wise actions take an append apart (`postProcess_append`).  So what is
    wrong in the end is only what a request left behind when the loop stopped
    (`makeRequest_right_iff`). -/

namespace N8nOffsetPagination

open List

variable {J : Type}

/-- An item-wise action, with its property or its expressions as functions. -/
inductive PostReceiveAction (J : Type) where
  | rootProperty (contents : J → List J)
  | filter (pass : J → Bool)
  | setKeyValue (returned : J → J)

def runPostReceiveAction : PostReceiveAction J → List J → List J
  | .rootProperty contents, inputData => inputData.flatMap contents
  | .filter pass, inputData => inputData.filter pass
  | .setKeyValue returned, inputData => inputData.map returned

/-- The items of a response after the actions. -/
def postProcess (actions : List (PostReceiveAction J)) (items : List J) : List J :=
  actions.foldl (fun returnData action => runPostReceiveAction action returnData) items

structure RequestData (J : Type) where
  postReceive : List (PostReceiveAction J)
  pageSize : Nat
  maxResults : Option Nat

/-- `maxResults`, where it is truthy. -/
def RequestData.bound (r : RequestData J) : Option Nat := r.maxResults.filter (· ≠ 0)

/-- The limit of the next request, if one is to be made. -/
def RequestData.limit (r : RequestData J) (found : Nat) : Option Nat :=
  match r.bound with
  | none => some r.pageSize
  | some m => if m - found < 1 then none else some (min r.pageSize (m - found))

/-- The remote list served by offset and limit. -/
def serve (remote : List J) (offset limit : Nat) : List J := (remote.drop offset).take limit

def makeRequest (r : RequestData J) (remote : List J) : Nat → Nat → List J → Option (List J)
  | 0, _, _ => none
  | fuel + 1, offset, responseData =>
    match r.limit responseData.length with
    | none => some responseData
    | some limit =>
      let tempResponseData := postProcess r.postReceive (serve remote offset limit)
      let responseData := responseData ++ tempResponseData
      if tempResponseData.length ≠ 0 ∧ tempResponseData.length = r.pageSize then
        makeRequest r remote fuel (offset + r.pageSize) responseData
      else some responseData

/-- The cut to `maxResults` in `runNode`. -/
def RequestData.cut (r : RequestData J) (responseData : List J) : List J :=
  match r.bound with
  | none => responseData
  | some m => responseData.take m

/-- The first `maxResults` items of the whole list are returned. -/
def Right (r : RequestData J) (remote : List J) : Prop :=
  ∃ fuel out, makeRequest r remote fuel 0 [] = some out ∧
    r.cut out = r.cut (postProcess r.postReceive remote)

variable {r : RequestData J} {remote x y : List J} {k : Nat}

/-- A whole page has as many items after the actions as before. -/
def Full (r : RequestData J) (remote : List J) (k : Nat) : Prop :=
  (postProcess r.postReceive (serve remote (k * r.pageSize) r.pageSize)).length = r.pageSize

/-- Request `k` does not end the loop, or it brings the last item wanted, or
    nothing behind it comes out of the actions. -/
def Enough (r : RequestData J) (remote : List J) (k : Nat) : Prop :=
  ∀ limit, r.limit (k * r.pageSize) = some limit →
    let items := postProcess r.postReceive (serve remote (k * r.pageSize) limit)
    items.length = r.pageSize ∨ (∃ m, r.bound = some m ∧ m ≤ k * r.pageSize + items.length) ∨
      postProcess r.postReceive (remote.drop (k * r.pageSize + limit)) = []

theorem postProcess_append (actions : List (PostReceiveAction J)) (x y : List J) :
    postProcess actions (x ++ y) = postProcess actions x ++ postProcess actions y := by
  induction actions generalizing x y with
  | nil => rfl
  | cons action rest ih =>
    have haction : runPostReceiveAction action (x ++ y) =
        runPostReceiveAction action x ++ runPostReceiveAction action y := by
      cases action with
      | rootProperty contents => exact flatMap_append
      | filter pass => exact filter_append ..
      | setKeyValue returned => exact map_append
    rw [postProcess, foldl_cons, haction]
    exact ih _ _

theorem postProcess_nil (actions : List (PostReceiveAction J)) : postProcess actions [] = [] := by
  have h := congrArg length (postProcess_append actions [] [])
  rw [append_nil, length_append] at h
  exact length_eq_zero_iff.mp (by omega)

theorem cut_append : r.cut x = r.cut (x ++ y) ↔
    (∃ m, r.bound = some m ∧ m ≤ x.length) ∨ y = [] := by
  rw [RequestData.cut, RequestData.cut]
  cases hbound : r.bound with
  | none => simp
  | some m =>
    dsimp only
    rw [take_append, self_eq_append_right, take_eq_nil_iff, Nat.sub_eq_zero_iff_le]
    simp

theorem limit_eq_none {n : Nat} : r.limit n = none ↔ ∃ m, r.bound = some m ∧ m ≤ n := by
  rw [RequestData.limit]
  cases r.bound with
  | none => simp
  | some m => simp [Nat.sub_eq_zero_iff_le]

theorem limit_last {n limit : Nat} (h : r.limit n = some limit) (hne : limit ≠ r.pageSize) :
    ∃ m, r.bound = some m ∧ m ≤ n + r.pageSize := by
  rw [RequestData.limit] at h
  split at h
  · cases h
    exact absurd rfl hne
  · next m hbound =>
    refine ⟨m, hbound, ?_⟩
    split at h
    · cases h
    · cases h
      omega

theorem enough_of_bound {j m : Nat} (hbound : r.bound = some m) (h : m ≤ j * r.pageSize) :
    Enough r remote j := by
  intro limit hlimit
  cases (limit_eq_none.mpr ⟨m, hbound, h⟩).symm.trans hlimit

/-- The loop at request `k`, when all pages before were full. -/
theorem makeRequest_iff (hpage : 0 < r.pageSize)
    (hx : x = postProcess r.postReceive (remote.take (k * r.pageSize)))
    (hlength : x.length = k * r.pageSize) :
    (∃ fuel out, makeRequest r remote fuel (k * r.pageSize) x = some out ∧
      r.cut out = r.cut (postProcess r.postReceive remote)) ↔
    ∀ j, k ≤ j → (∀ i, k ≤ i → i < j → Full r remote i) → Enough r remote j := by
  induction hm : remote.length - k * r.pageSize using Nat.strongRecOn generalizing k x with
  | ind left ih =>
  have hlater : ∀ {j : Nat}, k < j → k * r.pageSize + r.pageSize ≤ j * r.pageSize := by
    intro j hj
    rw [← Nat.succ_mul]
    exact Nat.mul_le_mul_right _ hj
  cases hlimit : r.limit (k * r.pageSize) with
  | none =>
    obtain ⟨m, hbound, hle⟩ := limit_eq_none.mp hlimit
    refine iff_of_true ⟨1, x, by rw [makeRequest, hlength, hlimit], ?_⟩ fun j hj _ =>
      enough_of_bound hbound (Nat.le_trans hle (Nat.mul_le_mul_right _ hj))
    rw [← take_append_drop (k * r.pageSize) remote, postProcess_append, ← hx]
    exact cut_append.mpr (.inl ⟨m, hbound, hlength ▸ hle⟩)
  | some limit =>
    have hrequest : ∀ fuel, makeRequest r remote (fuel + 1) (k * r.pageSize) x =
        let items := postProcess r.postReceive (serve remote (k * r.pageSize) limit)
        if items.length ≠ 0 ∧ items.length = r.pageSize then
          makeRequest r remote fuel (k * r.pageSize + r.pageSize) (x ++ items)
        else some (x ++ items) := by
      intro fuel
      rw [makeRequest, hlength, hlimit]
    have hwhole : postProcess r.postReceive remote =
        (x ++ postProcess r.postReceive (serve remote (k * r.pageSize) limit)) ++
          postProcess r.postReceive (remote.drop (k * r.pageSize + limit)) := by
      rw [hx, serve, append_assoc, ← postProcess_append, ← drop_drop, take_append_drop,
        ← postProcess_append, take_append_drop]
    generalize hitems : postProcess r.postReceive (serve remote (k * r.pageSize) limit) = items
      at hrequest hwhole
    have hsum : (x ++ items).length = k * r.pageSize + items.length := by
      rw [length_append, hlength]
    by_cases hfull : items.length = r.pageSize
    · have hgoes : ∀ fuel, makeRequest r remote (fuel + 1) (k * r.pageSize) x =
          makeRequest r remote fuel ((k + 1) * r.pageSize) (x ++ items) := by
        intro fuel
        rw [hrequest, Nat.succ_mul]
        exact if_pos ⟨by omega, hfull⟩
      have hk : Enough r remote k := by
        intro limit' hlimit'
        cases hlimit.symm.trans hlimit'
        exact .inl (hitems ▸ hfull)
      by_cases hwide : limit = r.pageSize
      · subst hwide
        have hreach : k * r.pageSize < remote.length := by
          by_contra hend
          rw [serve, drop_of_length_le (by omega), take_nil, postProcess_nil] at hitems
          rw [← hitems] at hfull
          exact absurd hfull (Nat.ne_of_lt hpage)
        have hnext := ih _ (by rw [Nat.succ_mul]; omega) (k := k + 1) (x := x ++ items)
          (by rw [hx, ← hitems, serve, ← postProcess_append, ← take_add, Nat.succ_mul])
          (by rw [hsum, hfull, Nat.succ_mul]) rfl
        constructor
        · rintro ⟨_ | fuel, out, hout, hcut⟩ j hj hpages
          · cases hout
          · rcases Nat.eq_or_lt_of_le hj with rfl | hlt
            · exact hk
            · rw [hgoes] at hout
              exact hnext.mp ⟨fuel, out, hout, hcut⟩ j hlt
                fun i hi => hpages i (Nat.le_of_succ_le hi)
        · intro h
          obtain ⟨fuel, out, hout, hcut⟩ := hnext.mpr fun j hj hpages =>
            h j (Nat.le_of_succ_le hj) fun i hi hij => by
              rcases Nat.eq_or_lt_of_le hi with rfl | hlt
              · rw [Full, hitems]
                exact hfull
              · exact hpages i hlt hij
          exact ⟨fuel + 1, out, by rw [hgoes, hout], hcut⟩
      · obtain ⟨m, hbound, hle⟩ := limit_last hlimit hwide
        refine iff_of_true ⟨2, x ++ items, ?_, ?_⟩ ?_
        · rw [hgoes, makeRequest, hsum, hfull, limit_eq_none.mpr ⟨m, hbound, hle⟩]
        · rw [hwhole]
          exact cut_append.mpr (.inl ⟨m, hbound, by rw [hsum, hfull]; exact hle⟩)
        · intro j hj _
          rcases Nat.eq_or_lt_of_le hj with rfl | hlt
          · exact hk
          · exact enough_of_bound hbound (Nat.le_trans hle (hlater hlt))
    · have hstops : ∀ fuel, makeRequest r remote (fuel + 1) (k * r.pageSize) x =
          some (x ++ items) := fun fuel => (hrequest fuel).trans (if_neg fun h => hfull h.2)
      constructor
      · rintro ⟨_ | fuel, out, hout, hcut⟩ j hj hpages
        · cases hout
        · rw [hstops] at hout
          cases hout
          rw [hwhole, cut_append, hsum] at hcut
          rcases Nat.eq_or_lt_of_le hj with rfl | hlt
          · intro limit' hlimit'
            cases hlimit.symm.trans hlimit'
            exact .inr (hitems ▸ hcut)
          · by_cases hwide : limit = r.pageSize
            · have hk := hpages k (Nat.le_refl k) hlt
              subst hwide
              rw [Full, hitems] at hk
              exact absurd hk hfull
            · obtain ⟨m, hbound, hle⟩ := limit_last hlimit hwide
              exact enough_of_bound hbound (Nat.le_trans hle (hlater hlt))
      · intro h
        have hk := h k (Nat.le_refl k) (fun i hi hik => absurd hik (Nat.not_lt.mpr hi)) limit hlimit
        rw [hitems] at hk
        refine ⟨1, x ++ items, hstops 0, ?_⟩
        rw [hwhole, cut_append, hsum]
        exact hk.resolve_left hfull

/-- Pages of two, of which only the even numbers are kept. -/
def evenPages (maxResults : Option Nat) : RequestData Nat :=
  { postReceive := [.filter fun n => n % 2 = 0], pageSize := 2, maxResults }

end N8nOffsetPagination
