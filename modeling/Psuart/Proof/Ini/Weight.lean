import Psuart.Proof.Ini.Places

namespace Psuart

open Printf (weight weight_append weight_sublist)

variable {sec key value buf : List Byte} {loc : Location}

/-- A copy past the text adds zero bytes. -/
theorem bufCopy_eq (buf : List Byte) (start count : Nat) :
    bufCopy buf start count =
      (buf.drop start).take count ++ List.replicate (count - (buf.length - start)) 0 := by
  apply List.ext_getElem
  · simp [bufCopy]
    omega
  · intro index left right
    have inside : index < count := by simpa [bufCopy] using left
    simp only [bufCopy, List.getElem_map, List.getElem_range, bufAt, Scan.charAt, List.getD_eq_getElem?_getD,
      List.getElem_append, List.length_take, List.length_drop, List.getElem_take, List.getElem_drop,
      List.getElem_replicate]
    by_cases part : start + index < buf.length
    · rw [dif_pos (by omega), List.getElem?_eq_getElem part]
      rfl
    · rw [dif_neg (by omega), List.getElem?_eq_none (by omega)]
      rfl

theorem weight_bufCopy (buf : List Byte) (start count : Nat) :
    weight (bufCopy buf start count) ≤ weight ((buf.drop start).take count) := by
  rw [bufCopy_eq, weight_append, Printf.weight_replicate (by decide), Nat.add_zero]

theorem weight_split (buf : List Byte) {first second : Nat} (ordered : first ≤ second) :
    weight (buf.take first) + weight (buf.drop second) ≤ weight buf := by
  have back : weight (buf.drop second) ≤ weight (buf.drop first) :=
    weight_sublist (List.drop_sublist_drop_left buf ordered)
  have whole := weight_append (buf.take first) (buf.drop first)
  rw [List.take_append_drop] at whole
  omega

theorem weight_entryLine (key value : List Byte) :
    weight (entryLine key value) = weight key + weight value := by
  simp only [entryLine, weight_append]
  rfl

theorem weight_headerLine (sec : List Byte) : weight (headerLine sec) = weight sec := by
  simp only [headerLine, weight_append]
  change 0 + weight sec + 0 = weight sec
  omega

/-- A rewritten text weighs at most as much as the old one and the written names. -/
theorem weight_profileText {text : List Byte}
    (written : profileText sec key value buf (parseFile sec key buf).1 = .ok text) :
    weight text ≤ weight buf + weight sec + weight key + weight value := by
  have ordered := parseFile_ordered sec key buf
  generalize (parseFile sec key buf).1 = loc at written ordered
  have entry := weight_entryLine key value
  have header := weight_headerLine sec
  have front (count : Nat) : weight (bufCopy buf 0 count) ≤ weight (buf.take count) := weight_bufCopy buf 0 count
  unfold profileText at written
  dsimp only at written
  split at written
  · split at written
    · rw [← Except.ok.inj written]
      change weight (headerLine sec ++ entryLine key value) ≤ _
      rw [weight_append]
      omega
    · rw [← Except.ok.inj written]
      change weight (buf ++ [charByte '\n'] ++ headerLine sec ++ entryLine key value) ≤ _
      have stop : weight [charByte '\n'] = 0 := by decide
      simp only [weight_append]
      omega
  · split at written
    · split at written
      · cases written
      · rename_i rest printed
        have place := weight_split buf (Nat.le_refl loc.secE.toNat)
        have formatted := Printf.weight_format_le printed
        have string : weight (cString (buf.drop loc.secE.toNat)) ≤ weight (buf.drop loc.secE.toNat) :=
          weight_sublist (List.takeWhile_sublist _)
        have before := front loc.secE.toNat
        rw [← Except.ok.inj written]
        change weight (bufCopy buf 0 loc.secE.toNat ++ entryLine key value ++ rest) ≤ _
        simp only [weight_append]
        omega
    · rename_i _ keyed
      obtain ⟨positive, le⟩ := ordered.resolve_left keyed
      have place := weight_split buf (Int.toNat_le_toNat le)
      have before := front loc.valueS.toNat
      have after := (weight_bufCopy buf loc.valueE.toNat (buf.length - loc.valueE.toNat)).trans
        (weight_sublist (List.take_sublist _ _))
      rw [← Except.ok.inj written]
      simp only [weight_append]
      omega

theorem weight_loadIniFile {calls : FileCalls} {file loaded : Option (List Byte)}
    (load : loadIniFile calls file = .ok loaded) :
    weight (loaded.getD []) ≤ weight (file.getD []) := by
  cases file with
  | none =>
      rw [← Except.ok.inj load]
  | some bytes =>
      rw [loadIniFile] at load
      split at load
      · rw [← Except.ok.inj load]
        exact Nat.zero_le _
      · dsimp only at load
        split at load
        · rw [← Except.ok.inj load]
          exact weight_sublist (List.takeWhile_sublist _)
        · cases load

theorem weight_storeProfile (calls : FileCalls) (text : List Byte) (file : Option (List Byte)) :
    weight ((storeProfile calls text file).2.getD []) ≤ max (weight text) (weight (file.getD [])) := by
  have string : weight (cString text) ≤ weight text := weight_sublist (List.takeWhile_sublist _)
  unfold storeProfile
  split
  · exact Nat.le_max_right _ _
  · split
    · exact string.trans (Nat.le_max_left _ _)
    · exact ((weight_sublist (List.take_sublist _ _)).trans string).trans (Nat.le_max_left _ _)

/-- A write leaves the file, or stores the rewritten text of the loaded one. -/
theorem writeProfileString_ok {calls : FileCalls} {file stored : Option (List Byte)} {done : Bool}
    (written : writeProfileString calls sec key (some value) file = .ok (done, stored)) :
    stored = file ∨ ∃ loaded text, loadIniFile calls file = .ok loaded ∧
      profileText sec key value (loaded.getD []) (parseFile sec key (loaded.getD [])).1 = .ok text ∧
      (done, stored) = storeProfile calls text file := by
  rw [writeProfileString] at written
  dsimp only at written
  split at written
  · exact Or.inl (Prod.mk.inj (Except.ok.inj written)).2.symm
  · split at written
    · cases written
    · rename_i loaded load
      refine Or.inr ⟨loaded, ?_⟩
      -- A file that cannot be loaded is parsed like an empty one.
      cases loaded with
      | none =>
          split at written
          · cases written
          · rename_i text printed
            split at written
            · exact ⟨text, load, printed, (Except.ok.inj written).symm⟩
            · cases written
      | some buf =>
          split at written
          · cases written
          · rename_i text printed
            split at written
            · exact ⟨text, load, printed, (Except.ok.inj written).symm⟩
            · cases written

/-- A write adds at most the weight of the written names and value to a file. -/
theorem weight_writeProfileString {calls : FileCalls} {file stored : Option (List Byte)} {done : Bool}
    (written : writeProfileString calls sec key (some value) file = .ok (done, stored)) :
    weight (stored.getD []) ≤ weight (file.getD []) + weight sec + weight key + weight value := by
  rcases writeProfileString_ok written with rfl | ⟨loaded, text, load, printed, result⟩
  · omega
  · have less := weight_loadIniFile load
    have bound := weight_profileText printed
    have kept := weight_storeProfile calls text file
    rw [← result] at kept
    dsimp only at kept
    omega

end Psuart
