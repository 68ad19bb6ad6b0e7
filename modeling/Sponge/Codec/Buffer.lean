import Sponge.Codec.Parser
import Sponge.Lib.Chunks

/-!
# Buffers

A buffer is a shared string with an offset up to which it was discarded; when
nothing is left the string is released, while the offset stays. A packet is a
list of buffers, and the system call that writes it takes a list of views of
them. Discarding bytes from the front of such a list is discarding them from the
one string that it stands for.
-/

namespace Sponge

open Lib

structure Buffer where
  storage : Option (List UInt8) := none
  startingOffset : ℕ := 0
  startingOffset_le : ∀ s ∈ storage, startingOffset ≤ s.length := by simp

namespace Buffer

def ofString (str : List UInt8) : Buffer := { storage := some str }

def str (b : Buffer) : List UInt8 := b.storage.elim [] (·.drop b.startingOffset)

/-- `Buffer::at`. -/
def atIndex (b : Buffer) (n : ℕ) : Except Exception UInt8 :=
  match b.str[n]? with
  | some byte => .ok byte
  | none => .error (.outOfRange "basic_string_view::at")

def size (b : Buffer) : ℕ := b.str.length

variable {b : Buffer} {n : ℕ}

theorem startingOffset_add_le (h : n ≤ b.str.length) :
    ∀ s ∈ b.storage, b.startingOffset + n ≤ s.length := by
  intro s hs
  have hle := b.startingOffset_le s hs
  rw [str, Option.mem_def.mp hs, Option.elim_some, List.length_drop] at h
  omega

/-- The buffer after `n` more bytes were discarded. -/
def advance (b : Buffer) (n : ℕ) (h : n ≤ b.str.length) : Buffer where
  -- an exhausted string is released
  storage := b.storage.bind fun s ↦ if s.length = b.startingOffset + n then none else some s
  startingOffset := b.startingOffset + n
  startingOffset_le := by
    intro s hs
    obtain ⟨s', hs', hkept⟩ := Option.bind_eq_some_iff.mp hs
    split_ifs at hkept
    exact Option.some.inj hkept ▸ startingOffset_add_le h s' hs'

def removePrefix (b : Buffer) (n : ℕ) : Except Exception Buffer :=
  if h : n > b.str.length then .error (.outOfRange "Buffer::remove_prefix")
  else .ok (b.advance n (not_lt.mp h))

@[simp] theorem str_ofString (s : List UInt8) : (ofString s).str = s := rfl

@[simp] theorem str_advance (h : n ≤ b.str.length) : (b.advance n h).str = b.str.drop n := by
  cases hs : b.storage with
  | none => simp [str, advance, hs]
  | some s =>
      by_cases hend : s.length = b.startingOffset + n
      · -- what is released was used up
        have hnil : s.drop (b.startingOffset + n) = [] := List.drop_eq_nil_of_le hend.le
        simp [str, advance, hs, hend, hnil]
      · simp [str, advance, hs, hend]

theorem removePrefix_of_le (h : n ≤ b.str.length) :
    b.removePrefix n = .ok (b.advance n h) :=
  dif_neg (not_lt.mpr h)

theorem atIndex_of_lt (h : n < b.str.length) : b.atIndex n = .ok b.str[n] := by
  rw [atIndex, List.getElem?_eq_getElem h]

theorem cuts : Cuts str removePrefix := by
  intro b n h
  exact ⟨b.advance n h.le, removePrefix_of_le h.le, str_advance h.le⟩

end Buffer

/-- A packet in several pieces. -/
abbrev BufferList := List Buffer

namespace BufferList

def ofString (str : List UInt8) : BufferList := [.ofString str]

def append (b other : BufferList) : BufferList := List.append b other

def concatenate (b : BufferList) : List UInt8 := List.foldl (fun ret buf ↦ ret ++ buf.str) [] b

def size (b : BufferList) : ℕ := List.foldl (fun ret buf ↦ ret + buf.size) 0 b

def removePrefix (b : BufferList) (n : ℕ) : Except Exception BufferList :=
  removeFront Buffer.str Buffer.removePrefix (.outOfRange "BufferList::remove_prefix") b n

theorem concatenate_eq (b : BufferList) : b.concatenate = b.flatMap Buffer.str := by
  rw [concatenate, List.foldl_append_eq_append, List.nil_append, List.flatMap_def]

theorem size_eq (b : BufferList) : b.size = b.concatenate.length := by
  rw [concatenate_eq, size, List.length_flatMap, List.sum_eq_foldl, List.foldl_map]
  rfl

theorem removePrefix_of_le {b : BufferList} {n : ℕ} (h : n ≤ b.size) :
    ∃ b', b.removePrefix n = .ok b' ∧ b'.concatenate = b.concatenate.drop n ∧
      b'.size = b.size - n := by
  rw [size_eq, concatenate_eq] at h
  obtain ⟨b', hok, hdrop⟩ := exists_removeFront _ Buffer.cuts h
  refine ⟨b', hok, ?_, ?_⟩
  · rw [concatenate_eq, concatenate_eq, hdrop]
  · rw [size_eq, size_eq, concatenate_eq, concatenate_eq, hdrop, List.length_drop]

theorem removePrefix_of_lt {b : BufferList} {n : ℕ} (h : b.size < n) :
    b.removePrefix n = .error (.outOfRange "BufferList::remove_prefix") := by
  rw [size_eq, concatenate_eq] at h
  exact removeFront_eq_error h

end BufferList

/-- The views of a packet that a system call is given. -/
abbrev BufferViewList := List (List UInt8)

namespace BufferViewList

def ofBufferList (buffers : BufferList) : BufferViewList := buffers.map Buffer.str

def size (v : BufferViewList) : ℕ := List.foldl (fun ret buf ↦ ret + buf.length) 0 v

/-- The bytes that are viewed, in order. -/
def bytes (v : BufferViewList) : List UInt8 := v.flatten

def removePrefix (v : BufferViewList) (n : ℕ) : Except Exception BufferViewList :=
  removeFront id (fun view n ↦ .ok (view.drop n)) (.outOfRange "BufferListView::remove_prefix") v n

theorem cuts : Cuts id fun (view : List UInt8) n ↦ (.ok (view.drop n) : Except Exception _) :=
  fun view n _ ↦ ⟨view.drop n, rfl, rfl⟩

theorem bytes_eq (v : BufferViewList) : v.bytes = v.flatMap id := List.flatMap_id.symm

theorem size_eq (v : BufferViewList) : v.size = v.bytes.length := by
  rw [bytes, size, List.length_flatten, List.sum_eq_foldl, List.foldl_map]

theorem removePrefix_of_le {v : BufferViewList} {n : ℕ} (h : n ≤ v.size) :
    ∃ v', v.removePrefix n = .ok v' ∧ v'.bytes = v.bytes.drop n ∧ v'.size = v.size - n := by
  rw [size_eq, bytes_eq] at h
  obtain ⟨v', hok, hdrop⟩ := exists_removeFront _ cuts h
  refine ⟨v', hok, ?_, ?_⟩
  · rw [bytes_eq, bytes_eq, hdrop]
  · rw [size_eq, size_eq, bytes_eq, bytes_eq, hdrop, List.length_drop]

theorem removePrefix_of_lt {v : BufferViewList} {n : ℕ} (h : v.size < n) :
    v.removePrefix n = .error (.outOfRange "BufferListView::remove_prefix") := by
  rw [size_eq, bytes_eq] at h
  exact removeFront_eq_error h

/-- A list of buffers and the views of it lose the same bytes of the same pieces, or both
throw. -/
theorem removePrefix_ofBufferList (b : BufferList) (n : ℕ) :
    (ofBufferList b).removePrefix n = ((b.removePrefix n).map ofBufferList).mapError
      fun _ ↦ .outOfRange "BufferListView::remove_prefix" := by
  apply removeFront_map _ Buffer.str (fun _ ↦ rfl)
  intro buf n h
  refine ⟨buf.advance n h.le, Buffer.removePrefix_of_le h.le, ?_⟩
  rw [Buffer.str_advance h.le]

end BufferViewList

/-- Removing `n` bytes from the front of a list of buffers, or of views, removes them from the
string it stands for, in one go or in parts, and throws if there are not so many. -/
theorem BufferList.removePrefix_as_one_string (b : BufferList) (v : BufferViewList) (n : ℕ) :
    ((n ≤ b.size → ∃ b', b.removePrefix n = .ok b' ∧
        b'.concatenate = b.concatenate.drop n ∧ b'.size = b.size - n) ∧
      (b.size < n → b.removePrefix n = .error (.outOfRange "BufferList::remove_prefix"))) ∧
    ((n ≤ v.size → ∃ v', v.removePrefix n = .ok v' ∧
        v'.bytes = v.bytes.drop n ∧ v'.size = v.size - n) ∧
      (v.size < n → v.removePrefix n = .error (.outOfRange "BufferListView::remove_prefix"))) ∧
    (BufferViewList.ofBufferList b).removePrefix n =
      ((b.removePrefix n).map BufferViewList.ofBufferList).mapError
        (fun _ ↦ .outOfRange "BufferListView::remove_prefix") ∧
    ∀ ns : List ℕ, ns.sum = n →
      (ns.foldlM removePrefix b).map concatenate = (b.removePrefix n).map concatenate ∧
      (ns.foldlM BufferViewList.removePrefix v).map BufferViewList.bytes =
        (v.removePrefix n).map BufferViewList.bytes := by
  refine ⟨⟨removePrefix_of_le, removePrefix_of_lt⟩,
    ⟨BufferViewList.removePrefix_of_le, BufferViewList.removePrefix_of_lt⟩,
    BufferViewList.removePrefix_ofBufferList b n, ?_⟩
  rintro ns rfl
  constructor
  · rw [show concatenate = List.flatMap Buffer.str from funext concatenate_eq]
    exact map_foldlM_removeFront Buffer.cuts ns b
  · rw [show BufferViewList.bytes = List.flatMap id from funext BufferViewList.bytes_eq]
    exact map_foldlM_removeFront BufferViewList.cuts ns v

/-- Six bytes in four buffers, two of them empty. -/
example : let b : BufferList :=
      [.ofString [], .ofString [1, 2, 3], .ofString [], .ofString [4, 5, 6]]
    ((b.removePrefix 4).map BufferList.concatenate).toOption = some [5, 6] := by
  decide

end Sponge
