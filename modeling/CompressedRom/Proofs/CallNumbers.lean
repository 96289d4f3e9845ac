import CompressedRom.Proofs.BlockRefinement

/-!
# Calls in their order

The calls to a device are counted, and each has the number of those before it. So a call that has
been made is never made again: what it came to bears on no later operation, `Query.le_number`.
-/

namespace CompressedRom

namespace Device

variable {d : Device} {length? : Option Nat}

lemma le_next_readExactly (d : Device) (pos len call : Nat) (got : Bytes) :
    call ≤ (d.readExactly pos len call got).2 := by
  fun_induction readExactly d pos len call got with
  | case1 => exact Nat.le_refl _
  | case2 => exact Nat.le_succ _
  | case3 => exact Nat.le_succ _
  | case4 pos len call got hl chunk hr hc ih => exact Nat.le_of_succ_le ih

lemma le_next_readPages (d : Device) (length? : Option Nat) (n first call : Nat) (got : Bytes) :
    call ≤ (d.readPages length? n first call got).2 := by
  induction n generalizing first call got with
  | zero => exact Nat.le_refl _
  | succ n ih =>
    rw [readPages]
    rcases Page.start first with step | pos
    · exact Nat.le_refl _
    · have hnext := le_next_readExactly d pos (available length? pos) call (Bytes.zeros 0)
      dsimp only
      rcases hr : d.readExactly pos (available length? pos) call (Bytes.zeros 0) with
        ⟨e | page, next⟩
      · rw [hr] at hnext
        exact hnext
      · rw [hr] at hnext
        exact Nat.le_trans hnext (ih _ _ _)

lemma le_number_callsFor {pos len call : Nat} {k : Call} (hk : k ∈ d.callsFor pos len call) :
    call ≤ k.number := by
  fun_induction callsFor d pos len call with
  | case1 => simp at hk
  | case2 pos len call hl ih =>
    rcases List.mem_cons.1 hk with rfl | hk
    · exact Nat.le_refl _
    · split at hk
      · simp at hk
      · rename_i chunk hr
        split at hk
        · simp at hk
        · rename_i hc
          exact Nat.le_of_succ_le (ih chunk hc hk)

lemma le_number_pageCalls {n first call : Nat} {k : Call}
    (hk : k ∈ d.pageCalls length? n first call) : call ≤ k.number := by
  induction n generalizing first call with
  | zero => simp [pageCalls] at hk
  | succ n ih =>
    rw [pageCalls] at hk
    split at hk
    · simp at hk
    · rename_i pos hpos
      rcases List.mem_append.1 hk with hk | hk
      · exact le_number_callsFor hk
      · have hnext := le_next_readExactly d pos (available length? pos) call (Bytes.zeros 0)
        split at hk
        · simp at hk
        · rename_i page next hr
          rw [hr] at hnext
          exact Nat.le_trans hnext (ih hk)

end Device

namespace Cache

variable {d : Device} {length? : Option Nat}

lemma calls_le_read (d : Device) (length? : Option Nat) (offset len : Nat) (c : Cache) :
    c.calls ≤ (c.read d length? offset len).2.calls := by
  rcases read_cases d length? offset len c with
    ⟨-, h⟩ | ⟨failure, h, -⟩ | ⟨b, -, first, start, -, -, -, h⟩ | ⟨-, -, -, h⟩
  · exact Nat.le_of_eq (congrArg (·.2.calls) h).symm
  · exact Nat.le_of_eq (congrArg (·.2.calls) h).symm
  · exact Nat.le_of_eq (congrArg (·.2.calls) h).symm
  · have hnext := Device.le_next_readPages d length? pagesPerBuffer (offset / pageSize) c.calls
      (Bytes.zeros 0)
    rcases readMiss_cases d length? (offset / pageSize) (offset % pageSize) len c with
      ⟨failure, left, next, hread, -, hmiss⟩ | ⟨filled, next, hread, -, hmiss⟩
    · rw [hread] at hnext
      rw [h, hmiss]
      exact hnext
    · rw [hread] at hnext
      rw [h, hmiss]
      exact hnext

end Cache

namespace Store

variable {s : Store} {c : Cache} {offset len : Nat}

lemma calls_le_read (s : Store) (offset len : Nat) (c : Cache) :
    c.calls ≤ (s.read offset len c).2.calls := by
  cases s with
  | mapped m => exact Nat.le_refl _
  | buffered d length? => exact c.calls_le_read d length? offset len
  | characters => exact Nat.le_refl _

lemma le_number {k : Device.Call} (hk : k ∈ s.readCalls offset len c) : c.calls ≤ k.number := by
  cases s with
  | mapped m => exact absurd hk List.not_mem_nil
  | buffered d length? => exact Device.le_number_pageCalls (Cache.pageCalls_of_mem_readCalls hk)
  | characters => exact absurd hk List.not_mem_nil

end Store

namespace Query

variable {α : Type}

lemma calls_le_run (s : Store) (q : Query α) (c : Cache) : c.calls ≤ (q.run s c).2.calls := by
  induction q generalizing c with
  | done a => exact Nat.le_refl _
  | stop failure => exact Nat.le_refl _
  | ask offset len next ih =>
    have hread := s.calls_le_read offset len c
    rw [run]
    rcases hr : s.read offset len c with ⟨⟨cause | step⟩ | span, c'⟩
    · rw [hr] at hread
      exact Nat.le_trans hread (ih _ c')
    · rw [hr] at hread
      exact hread
    · rw [hr] at hread
      exact Nat.le_trans hread (ih _ c')

/-- The calls of a query come behind all that have been made before it. -/
lemma le_number {s : Store} {q : Query α} {c : Cache} {k : Device.Call} (hk : k ∈ q.calls s c) :
    c.calls ≤ k.number := by
  induction q generalizing c with
  | done a => exact absurd hk List.not_mem_nil
  | stop failure => exact absurd hk List.not_mem_nil
  | ask offset len next ih =>
    have hread := s.calls_le_read offset len c
    rw [calls] at hk
    rcases List.mem_append.1 hk with hk | hk
    · exact Store.le_number hk
    · rcases hr : s.read offset len c with ⟨⟨cause | step⟩ | span, c'⟩
      · rw [hr] at hread hk
        exact Nat.le_trans hread (ih _ hk)
      · rw [hr] at hk
        exact absurd hk List.not_mem_nil
      · rw [hr] at hread hk
        exact Nat.le_trans hread (ih _ hk)

end Query

end CompressedRom
