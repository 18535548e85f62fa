import SecureShell.Proofs.Bytes

/-!
# The key in force

Packet ciphers and message authentication codes are given keys at any time, and each takes those of
one length only. Whatever else is asked of an instance in between, the key it works with is the last
one that it took (`foldl_eq_keyInForce`), which is how both of them are spoken of.
-/

namespace SecureShell

/-- The key in force after several were given: the last of those that have the right length. -/
def keyInForce (length : ℕ) (keys : List Bytes) : Option Bytes :=
  (keys.filter fun key ↦ key.length = length).getLast?

variable {n : ℕ}

/-- A key of the right length is in force from now on, and any other one changes nothing. -/
theorem keyInForce_concat (keys : List Bytes) (key : Bytes) :
    keyInForce n (keys ++ [key]) = if key.length = n then some key else keyInForce n keys := by
  rw [keyInForce, List.filter_append]
  split
  · rename_i hlength
    rw [List.filter_cons_of_pos (by simpa using hlength), List.filter_nil, List.getLast?_concat]
  · rename_i hlength
    rw [List.filter_cons_of_neg (by simpa using hlength), List.filter_nil, List.append_nil]
    rfl

/-- A key of another length leaves the earlier key in force. -/
example : keyInForce 2 [[1], [2, 3], [4]] = some [2, 3] := by decide

/-- **Which key is in force after a run.** A run is one of calls, some of which give a key, and an
instance is known by the key it has. If a call with a key of the right length puts that key in force
and no other call changes anything, then the whole run leaves the last key of the right length. -/
theorem foldl_eq_keyInForce {σ α : Type} {key? : α → Option Bytes} {step : σ → α → σ}
    (holding : Option Bytes → σ)
    (hkey : ∀ k call key, key? call = some key →
      step (holding k) call = if key.length = n then holding (some key) else holding k)
    (hother : ∀ k call, key? call = none → step (holding k) call = holding k) (calls : List α) :
    calls.foldl step (holding none) = holding (keyInForce n (calls.filterMap key?)) := by
  -- The last call decides unless it changes nothing, so the induction is from the end.
  induction calls using List.reverseRecOn with
  | nil => rfl
  | append_singleton calls call ih =>
    rw [List.foldl_append, ih, List.filterMap_append]
    rcases h : key? call with - | key
    · rw [List.filterMap_cons_none h, List.filterMap_nil, List.append_nil]
      exact hother _ _ h
    · rw [List.filterMap_cons_some h, List.filterMap_nil, keyInForce_concat, apply_ite holding]
      exact hkey _ _ _ h

end SecureShell
