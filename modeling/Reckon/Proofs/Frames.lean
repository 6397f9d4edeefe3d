import Mathlib.Data.List.Basic
import Reckon.Files

/-!
# What changes when files change

The frame of `Files.insert`: at a location that can be written, nothing changes at any
other location, also not which directories there are, for the parent of a new file has
been a directory before (`entry?_insert_of_ne`). A path that can be followed is followed to
the same location afterwards (`locate_insert`), and where it leads is told by its names
alone (`eq_of_locate`).

The frame of a directory that is made for a time: it is made where nothing is, so nothing
is below it either, and whatever is laid below it goes when it goes
(`removeTree_of_makeDirectory`).
-/

namespace Reckon

namespace Files

variable {fs made : Files} {k l m : Location} {p : Path} {e : Entry} {b : Bytes}

/-! ## What stands at a location -/

theorem entry?_of_given (h : isGiven k = true) : fs.entry? k = some .directory := if_pos h

theorem isGiven_of_isPrefix (h : k <+: l) (hl : isGiven l = true) : isGiven k = true := by
  simp only [isGiven, Bool.or_eq_true, List.all_eq_true, decide_eq_true_eq] at hl ⊢
  rcases hl with hall | rfl
  · exact Or.inl fun name hname => hall name (h.subset hname)
  · rcases List.prefix_cons_iff.mp h with rfl | ⟨t, rfl, ht⟩
    · exact Or.inl fun name hname => by cases hname
    · rw [List.prefix_nil.mp ht]
      exact Or.inr rfl

theorem mem_of_lookup {e : Entry} : ∀ {es : List (Location × Entry)}, es.lookup k = some e →
    (k, e) ∈ es
  | [], h => by cases h
  | (m, e') :: es, h => by
      rw [List.lookup_cons] at h
      split at h
      case h_1 hk =>
        obtain rfl := Option.some.inj h
        rw [eq_of_beq hk]
        exact List.mem_cons_self ..
      case h_2 => exact List.mem_cons_of_mem _ (mem_of_lookup h)

/-- Where something is, that need not be there, something is listed. -/
theorem exists_listed (h : fs.entry? k = some e) (hk : isGiven k = false) :
    ∃ x ∈ fs.entries, k <+: x.1 := by
  unfold entry? at h
  rw [hk, if_neg Bool.false_ne_true] at h
  split at h
  case h_1 e' hlookup => exact ⟨_, mem_of_lookup hlookup, List.prefix_rfl⟩
  case h_2 =>
    split at h
    case isTrue hany =>
      obtain ⟨x, hx, hpre⟩ := List.any_eq_true.mp hany
      exact ⟨x, hx, List.isPrefixOf_iff_prefix.mp hpre⟩
    case isFalse => cases h

/-- Where nothing is, nothing is listed, nor below. -/
theorem not_prefix_of_none (h : fs.entry? l = none) {x : Location × Entry}
    (hx : x ∈ fs.entries) : ¬l <+: x.1 := by
  intro hpre
  unfold entry? at h
  split at h
  case isTrue => cases h
  case isFalse =>
    split at h
    case h_1 => cases h
    case h_2 =>
      rw [if_pos (List.any_eq_true.mpr ⟨x, hx, List.isPrefixOf_iff_prefix.mpr hpre⟩)] at h
      cases h

theorem not_given_of_none (h : fs.entry? l = none) : isGiven l = false := by
  cases hg : isGiven l with
  | false => rfl
  | true =>
      rw [entry?_of_given hg] at h
      cases h

/-- Where nothing is, there is nothing below. -/
theorem entry?_below_of_none (h : fs.entry? l = none) (hpre : l <+: k) : fs.entry? k = none := by
  have hk : isGiven k = false := by
    cases hg : isGiven k with
    | false => rfl
    | true =>
        have hl := isGiven_of_isPrefix hpre hg
        rw [not_given_of_none h] at hl
        cases hl
  cases hentry : fs.entry? k with
  | none => rfl
  | some e =>
      obtain ⟨x, hx, hkx⟩ := exists_listed hentry hk
      exact absurd (hpre.trans hkx) (not_prefix_of_none h hx)

theorem lookup_of_file (h : fs.entry? k = some (.file b)) :
    fs.entries.lookup k = some (.file b) := by
  unfold entry? at h
  split at h
  case isTrue => cases h
  case isFalse =>
    split at h
    case h_1 e hlookup =>
      obtain rfl := Option.some.inj h
      exact hlookup
    case h_2 =>
      split at h
      · cases h
      · cases h

theorem lookup_of_none (h : fs.entry? l = none) : fs.entries.lookup l = none := by
  cases hlookup : fs.entries.lookup l with
  | none => rfl
  | some e => exact absurd List.prefix_rfl (not_prefix_of_none h (mem_of_lookup hlookup))

/-! ## Putting something at a location -/

theorem lookup_filter_ne (hne : k ≠ l) : ∀ es : List (Location × Entry),
    (es.filter (·.1 ≠ l)).lookup k = es.lookup k
  | [] => rfl
  | (m, e) :: es => by
      have ih := lookup_filter_ne hne es
      by_cases hm : m = l
      · have hkm : (k == m) = false := beq_false_of_ne (hm ▸ hne)
        rw [List.filter_cons_of_neg (by simpa using hm), ih, List.lookup_cons, hkm]
      · rw [List.filter_cons_of_pos (by simpa using hm), List.lookup_cons, List.lookup_cons, ih]

theorem lookup_insert_of_ne (hne : k ≠ l) :
    (fs.insert l e).entries.lookup k = fs.entries.lookup k := by
  have hkl : (k == l) = false := beq_false_of_ne hne
  rw [insert, List.lookup_append, lookup_filter_ne hne, List.lookup_cons, hkl]
  simp

theorem lookup_insert_self : (fs.insert l e).entries.lookup l = some e := by
  have hnone : (fs.entries.filter (·.1 ≠ l)).lookup l = none := by
    cases h : (fs.entries.filter (·.1 ≠ l)).lookup l with
    | none => rfl
    | some e =>
        have hmem := (List.mem_filter.mp (mem_of_lookup h)).2
        simp at hmem
  rw [insert, List.lookup_append, hnone]
  simp

theorem entry?_insert_self (hl : isGiven l = false) : entry? (fs.insert l e) l = some e := by
  unfold entry?
  rw [hl, if_neg Bool.false_ne_true, lookup_insert_self]

theorem entry?_put_self (hl : isGiven l = false) : entry? (fs.put l b) l = some (.file b) :=
  entry?_insert_self hl

/-- What is listed below a location stays so. -/
theorem any_insert (h : fs.entries.any (fun x => k.isPrefixOf x.1) = true) :
    (fs.insert l e).entries.any (fun x => k.isPrefixOf x.1) = true := by
  obtain ⟨x, hx, hpre⟩ := List.any_eq_true.mp h
  refine List.any_eq_true.mpr ?_
  by_cases hxl : x.1 = l
  · exact ⟨(l, e), List.mem_append_right _ (List.mem_singleton_self _), hxl ▸ hpre⟩
  · exact ⟨x, List.mem_append_left _ (List.mem_filter.mpr ⟨hx, by simpa using hxl⟩), hpre⟩

theorem directory_insert (hne : k ≠ l) (h : fs.entry? k = some .directory) :
    entry? (fs.insert l e) k = some .directory := by
  unfold entry? at h ⊢
  split at h
  case isTrue hk => rw [if_pos hk]
  case isFalse hk =>
    rw [if_neg hk, lookup_insert_of_ne hne]
    split at h
    case h_1 e' hlookup =>
      exact h
    case h_2 hlookup =>
      split at h
      case isTrue hany => rw [if_pos (any_insert hany)]
      case isFalse => cases h

/-- A file can be put at the location: one is there, or a new name can be added to the
directory above. -/
def Writable (fs : Files) (l : Location) : Prop :=
  (∃ b, fs.entry? l = some (.file b))
    ∨ (fs.entry? l = none ∧ fs.entry? l.dropLast = some .directory)

theorem Writable.ne_directory (h : fs.Writable l) : fs.entry? l ≠ some .directory := by
  rintro hd
  rcases h with ⟨c, hc⟩ | ⟨hnone, -⟩
  · rw [hd] at hc
    cases hc
  · rw [hd] at hnone
    cases hnone

theorem Writable.not_given (h : fs.Writable l) : isGiven l = false := by
  cases hg : isGiven l with
  | false => rfl
  | true => exact absurd (entry?_of_given hg) h.ne_directory

/-- What is listed at a location in reach of a new file has been listed before. -/
theorem Writable.exists_listed_above (h : fs.Writable l) (hpre : k <+: l) (hne : k ≠ l)
    (hk : isGiven k = false) : ∃ x ∈ fs.entries, k <+: x.1 := by
  rcases h with ⟨c, hc⟩ | ⟨-, hdir⟩
  · have hl : isGiven l = false := Writable.not_given (Or.inl ⟨c, hc⟩)
    obtain ⟨x, hx, hlx⟩ := exists_listed hc hl
    exact ⟨x, hx, hpre.trans hlx⟩
  · have habove : k <+: l.dropLast := by
      refine List.prefix_of_prefix_length_le hpre l.dropLast_prefix ?_
      have hlt : k.length < l.length :=
        Nat.lt_of_le_of_ne hpre.length_le fun hlen => hne (hpre.eq_of_length hlen)
      rw [List.length_dropLast]
      omega
    cases hg : isGiven l.dropLast with
    | true =>
        rw [isGiven_of_isPrefix habove hg] at hk
        cases hk
    | false =>
        obtain ⟨x, hx, hlx⟩ := exists_listed hdir hg
        exact ⟨x, hx, habove.trans hlx⟩

/-- **The frame of a new entry.** At every other location there is what was there before. -/
theorem entry?_insert_of_ne (h : fs.Writable l) (hne : k ≠ l) :
    entry? (fs.insert l e) k = fs.entry? k := by
  cases hk : isGiven k with
  | true => rw [entry?_of_given hk, entry?_of_given hk]
  | false =>
      have hany : (fs.insert l e).entries.any (fun x => k.isPrefixOf x.1)
          = fs.entries.any fun x => k.isPrefixOf x.1 := by
        rw [Bool.eq_iff_iff]
        refine ⟨fun hnew => ?_, any_insert⟩
        obtain ⟨x, hx, hpre⟩ := List.any_eq_true.mp hnew
        refine List.any_eq_true.mpr ?_
        rcases List.mem_append.mp hx with hx | hx
        · exact ⟨x, (List.mem_filter.mp hx).1, hpre⟩
        · obtain rfl := List.mem_singleton.mp hx
          obtain ⟨y, hy, hky⟩ :=
            h.exists_listed_above (List.isPrefixOf_iff_prefix.mp hpre) hne hk
          exact ⟨y, hy, List.isPrefixOf_iff_prefix.mpr hky⟩
      unfold entry?
      rw [hk, lookup_insert_of_ne hne, hany]

theorem entry?_put_of_ne (h : fs.Writable l) (hne : k ≠ l) :
    entry? (fs.put l b) k = fs.entry? k :=
  entry?_insert_of_ne h hne

/-! ## Following paths -/

/-- Where names lead from a location, if they can be followed. -/
theorem eq_of_walk : ∀ {names : List Text} {l : Location}, fs.walk l names = .ok m →
    m = names.foldl next l
  | [], l, h => (Except.ok.inj h).symm
  | name :: names, l, h => by
      rw [walk] at h
      split at h
      case h_1 => cases h
      case h_2 => cases h
      case h_3 =>
        split_ifs at h
        rw [List.foldl_cons]
        exact eq_of_walk h

/-- Where a path leads, if it can be followed. -/
theorem eq_of_locate (h : fs.locate p = .ok l) : l = p.names.foldl next (start p) := by
  unfold locate at h
  split_ifs at h
  exact eq_of_walk h

theorem walk_append : ∀ {names : List Text} {k : Location} (rest : List Text),
    fs.walk k names = .ok l → fs.walk k (names ++ rest) = fs.walk l rest
  | [], k, rest, h => by
      obtain rfl := Except.ok.inj h
      rfl
  | name :: names, k, rest, h => by
      rw [walk] at h
      rw [List.cons_append, walk]
      split at h
      case h_1 => cases h
      case h_2 => cases h
      case h_3 hdir =>
        split_ifs at h with hsearch hname
        rw [if_neg hsearch, if_neg hname]
        exact walk_append rest h

/-- Names can be followed as before where all directories are still there. -/
theorem walk_mono {after : Files} (hbarred : after.barred = fs.barred)
    (hdir : ∀ k, fs.entry? k = some .directory → after.entry? k = some .directory) :
    ∀ {names : List Text} {k : Location}, fs.walk k names = .ok m → after.walk k names = .ok m
  | [], _, h => h
  | name :: names, k, h => by
      have hpermits : after.permits .search k = fs.permits .search k := by
        rw [permits, hbarred, permits]
      rw [walk] at h ⊢
      split at h
      case h_1 => cases h
      case h_2 => cases h
      case h_3 hk =>
        split_ifs at h with hsearch hname
        rw [hdir k hk]
        dsimp only
        rw [hpermits, if_neg hsearch, if_neg hname]
        exact walk_mono hbarred hdir h

theorem locate_mono {after : Files} (hbarred : after.barred = fs.barred)
    (hdir : ∀ k, fs.entry? k = some .directory → after.entry? k = some .directory)
    (h : fs.locate p = .ok m) : after.locate p = .ok m := by
  unfold locate at h ⊢
  split_ifs at h ⊢
  exact walk_mono hbarred hdir h

theorem barred_insert : (fs.insert l e).barred = fs.barred := rfl

theorem directory_insert_of_new (hl : fs.entry? l ≠ some .directory) (k : Location)
    (hk : fs.entry? k = some .directory) : entry? (fs.insert l e) k = some .directory := by
  refine directory_insert ?_ hk
  rintro rfl
  exact hl hk

theorem locate_insert (hl : fs.entry? l ≠ some .directory) (h : fs.locate p = .ok m) :
    (fs.insert l e).locate p = .ok m :=
  locate_mono barred_insert (directory_insert_of_new hl) h

theorem walk_insert (hl : fs.entry? l ≠ some .directory) {names : List Text}
    (h : fs.walk k names = .ok m) : (fs.insert l e).walk k names = .ok m :=
  walk_mono barred_insert (directory_insert_of_new hl) h

theorem read_eq_ok_iff : fs.read p = .ok b ↔ ∃ l, fs.locate p = .ok l
    ∧ fs.entry? l = some (.file b) ∧ fs.permits .read l = true := by
  unfold read
  cases hp : fs.locate p with
  | error f => simp
  | ok l =>
      cases hl : fs.entry? l with
      | none => simp [hl]
      | some e =>
          cases e with
          | directory => simp [hl]
          | file c => by_cases hread : fs.permits .read l = true <;> simp [hl, hread]

theorem writable_of_target (h : fs.target p = .ok l) : fs.locate p = .ok l ∧ fs.Writable l := by
  unfold target at h
  split at h
  case h_1 => cases h
  case h_2 m hm =>
    split at h
    case h_1 => cases h
    case h_2 c hc =>
      split_ifs at h
      obtain rfl := Except.ok.inj h
      exact ⟨hm, Or.inl ⟨c, hc⟩⟩
    case h_3 hnone =>
      split_ifs at h with hdir hwrite
      obtain rfl := Except.ok.inj h
      exact ⟨hm, Or.inr ⟨hnone, hdir⟩⟩

/-- What has been put at the location of a path is found under the path. -/
theorem find_put (hp : fs.locate p = .ok l) (hw : fs.Writable l) :
    (fs.put l b).find p = .ok (.file b) := by
  have hp' : (fs.put l b).locate p = .ok l := locate_insert hw.ne_directory hp
  rw [find, hp']
  dsimp only
  rw [entry?_put_self hw.not_given]

/-! ## A directory for a time -/

theorem barred_lay : ∀ (unpacked : List Archive.Unpacked) (fs : Files),
    (fs.lay l unpacked).barred = fs.barred
  | [], _ => rfl
  | f :: unpacked, fs => barred_lay unpacked (fs.put (l ++ f.names) f.content)

/-- What is laid below a directory is listed nowhere else. -/
theorem lookup_lay (h : ¬l <+: k) : ∀ (unpacked : List Archive.Unpacked) (fs : Files),
    (fs.lay l unpacked).entries.lookup k = fs.entries.lookup k
  | [], _ => rfl
  | f :: unpacked, fs => by
      have hne : k ≠ l ++ f.names := fun heq => h (heq ▸ List.prefix_append l f.names)
      exact (lookup_lay h unpacked _).trans (lookup_insert_of_ne hne)

theorem directory_lay (h : ¬l <+: k) : ∀ (unpacked : List Archive.Unpacked) {fs : Files},
    fs.entry? k = some .directory → Files.entry? (fs.lay l unpacked) k = some .directory
  | [], _, hk => hk
  | f :: unpacked, _, hk =>
      directory_lay h unpacked
        (directory_insert (fun heq => h (heq ▸ List.prefix_append l f.names)) hk)

theorem of_makeDirectory (h : fs.makeDirectory p = .ok (l, made)) :
    fs.locate p = .ok l ∧ fs.entry? l = none ∧ fs.entry? l.dropLast = some .directory
      ∧ made = fs.insert l .directory := by
  unfold makeDirectory at h
  split at h
  case h_1 => cases h
  case h_2 m hm =>
    split_ifs at h with hnone hdir hwrite
    obtain ⟨rfl, rfl⟩ := Prod.mk.inj (Except.ok.inj h)
    exact ⟨hm, not_not.mp hnone, hdir, rfl⟩

theorem removeTree_insert (h : l <+: m) : (fs.insert m e).removeTree l = fs.removeTree l := by
  have hkept : (fun x : Location × Entry => !l.isPrefixOf x.1 && decide (x.1 ≠ m))
      = fun x => !l.isPrefixOf x.1 := by
    funext x
    by_cases hx : x.1 = m
    · have hlx : l.isPrefixOf x.1 = true := List.isPrefixOf_iff_prefix.mpr (hx ▸ h)
      simp [hlx]
    · simp [hx]
  have hnew : (!l.isPrefixOf m) = false := by
    rw [List.isPrefixOf_iff_prefix.mpr h]
    rfl
  rw [removeTree, removeTree, insert]
  simp only [List.filter_append, List.filter_filter, hkept, List.filter_cons, hnew]
  simp

theorem removeTree_lay : ∀ (unpacked : List Archive.Unpacked) (fs : Files),
    (fs.lay l unpacked).removeTree l = fs.removeTree l
  | [], _ => rfl
  | f :: unpacked, fs => by
      rw [lay, List.foldl_cons]
      exact (removeTree_lay unpacked _).trans (removeTree_insert (List.prefix_append l f.names))

theorem removeTree_of_none (h : fs.entry? l = none) : fs.removeTree l = fs := by
  have hall : fs.entries.filter (fun x => !l.isPrefixOf x.1) = fs.entries := by
    refine List.filter_eq_self.mpr fun x hx => ?_
    rw [Bool.not_eq_true', ← Bool.not_eq_true, List.isPrefixOf_iff_prefix]
    exact not_prefix_of_none h hx
  rw [removeTree, hall]

/-- A directory that is made and removed again leaves no trace, nor does what has been laid
below it. -/
theorem removeTree_of_makeDirectory (h : fs.makeDirectory p = .ok (l, made))
    (unpacked : List Archive.Unpacked) : (made.lay l unpacked).removeTree l = fs := by
  obtain ⟨-, hnone, -, rfl⟩ := of_makeDirectory h
  rw [removeTree_lay, removeTree_insert List.prefix_rfl, removeTree_of_none hnone]

end Files

end Reckon
