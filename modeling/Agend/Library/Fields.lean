import Agend.Library.Serde

/-! Structs and tagged enums, made of their fields. -/
namespace Agend.Library

/-- A struct's fields, or those of a variant. -/
structure Fields (α : Type) where
  names : List String
  write : α → Members
  read : Source → Members → Option α
  Valid : α → Prop
  Plain : Members → Prop
  named : ∀ {a m}, m ∈ write a → m.1 ∈ names
  once : names.Nodup → ∀ a, ((write a).map Prod.fst).Nodup
  read_eq : ∀ {s ms ms'}, (∀ key ∈ names, values key ms = values key ms') → read s ms = read s ms'
  plain_eq : ∀ {ms ms'}, (∀ key ∈ names, values key ms = values key ms') → Plain ms → Plain ms'
  agree : ∀ {finite ms}, Plain ms → (∀ m ∈ ms, m.2.readable finite = true) →
    read (.text finite) ms = read .buffered ms
  plain : ∀ {a}, names.Nodup → Valid a → Plain (write a)
  readable : ∀ {a} finite, Valid a → ∀ m ∈ write a, m.2.readable finite = true
  round : ∀ {a} s, names.Nodup → Valid a → read s (write a) = some a

namespace Fields

variable {α β : Type}

def unit : Fields Unit where
  names := []
  write _ := []
  read _ _ := some ()
  Valid _ := True
  Plain _ := True
  named := nofun
  once _ _ := List.nodup_nil
  read_eq _ := rfl
  plain_eq _ _ := trivial
  agree _ _ := rfl
  plain _ _ := trivial
  readable _ _ := nofun
  round _ _ _ := rfl

/-- A field may be left out of what is written when that is what it is if it is missing. -/
def field (key : String) (d : Serde α) (missing : Option α) (skip : α → Bool)
    (hskip : ∀ a, skip a = true → missing = some a) : Fields α where
  names := [key]
  write a := if skip a then [] else [(key, d.write a)]
  read := readField key d.read missing
  Valid := d.Valid
  Plain ms := ∀ v, values key ms = [v] → d.Plain v
  named {a m} h := by
    split at h
    next => cases h
    next =>
      rw [List.mem_singleton.mp h]
      exact List.mem_singleton_self key
  once _ a := by
    split
    next => exact List.nodup_nil
    next => exact List.pairwise_singleton _ key
  read_eq h := by
    unfold readField
    rw [h key (List.mem_singleton_self key)]
  plain_eq h hplain v hv := hplain v (by rw [h key (List.mem_singleton_self key), hv])
  agree {finite ms} hplain hreadable := by
    unfold readField
    split
    next => rfl
    next v heq =>
      exact d.agree (hplain v heq) (hreadable _ (mem_of_values heq))
    next => rfl
  plain {a} _ h v hv := by
    split at hv
    next => cases hv
    next =>
      have heq : d.write a = v := by simpa using hv
      rw [← heq]
      exact d.plain h
  readable {a} finite h m hm := by
    split at hm
    next => cases hm
    next =>
      rw [List.mem_singleton.mp hm]
      exact d.readable finite h
  round {a} s _ h := by
    unfold readField
    by_cases hs : skip a = true
    · rw [if_pos hs]
      exact hskip a hs
    · rw [if_neg hs, values_cons, if_pos rfl]
      exact d.round s h

def required (key : String) (d : Serde α) : Fields α :=
  field key d none (fun _ => false) nofun

/-- Missing is `None`. -/
def optional (key : String) (d : Serde (Option α)) : Fields (Option α) :=
  field key d (some none) (fun _ => false) nofun

/-- Missing is `None`, and `None` is not written. -/
def skipped (key : String) (d : Serde (Option α)) : Fields (Option α) :=
  field key d (some none) Option.isNone fun a h => by rw [Option.isNone_iff_eq_none.mp h]

/-- Missing is empty. -/
def defaulted (key : String) (d : Serde (List α)) : Fields (List α) :=
  field key d (some []) (fun _ => false) nofun

/-- Missing is empty, and empty is not written. -/
def skippedEmpty (key : String) (d : Serde (List α)) : Fields (List α) :=
  field key d (some []) List.isEmpty fun a h => by rw [List.isEmpty_iff.mp h]

section

variable {f : Fields α} {g : Fields β} (a : α) (b : β)

theorem values_left (hnames : (f.names ++ g.names).Nodup) :
    ∀ key ∈ f.names, values key (f.write a ++ g.write b) = values key (f.write a) := by
  intro key hkey
  have hnone : values key (g.write b) = [] := by
    apply values_eq_nil
    intro m hm heq
    exact (List.nodup_append.mp hnames).2.2 key hkey m.1 (g.named hm) heq.symm
  rw [values_append, hnone, List.append_nil]

theorem values_right (hnames : (f.names ++ g.names).Nodup) :
    ∀ key ∈ g.names, values key (f.write a ++ g.write b) = values key (g.write b) := by
  intro key hkey
  have hnone : values key (f.write a) = [] := by
    apply values_eq_nil
    intro m hm heq
    exact (List.nodup_append.mp hnames).2.2 m.1 (f.named hm) key hkey heq
  rw [values_append, hnone, List.nil_append]

end

def and (f : Fields α) (g : Fields β) : Fields (α × β) where
  names := f.names ++ g.names
  write p := f.write p.1 ++ g.write p.2
  read s ms := do
    let a ← f.read s ms
    let b ← g.read s ms
    return (a, b)
  Valid p := f.Valid p.1 ∧ g.Valid p.2
  Plain ms := f.Plain ms ∧ g.Plain ms
  named h := by
    cases List.mem_append.mp h with
    | inl h => exact List.mem_append_left _ (f.named h)
    | inr h => exact List.mem_append_right _ (g.named h)
  once hnames p := by
    obtain ⟨hf, hg, hapart⟩ := List.nodup_append.mp hnames
    rw [List.map_append]
    apply List.nodup_append.mpr
    refine ⟨f.once hf p.1, g.once hg p.2, ?_⟩
    intro key hkey key' hkey'
    obtain ⟨m, hm, rfl⟩ := List.mem_map.mp hkey
    obtain ⟨m', hm', rfl⟩ := List.mem_map.mp hkey'
    exact hapart m.1 (f.named hm) m'.1 (g.named hm')
  read_eq h := by
    rw [f.read_eq fun key hkey => h key (List.mem_append_left _ hkey),
      g.read_eq fun key hkey => h key (List.mem_append_right _ hkey)]
  plain_eq h hplain :=
    ⟨f.plain_eq (fun key hkey => h key (List.mem_append_left _ hkey)) hplain.1,
      g.plain_eq (fun key hkey => h key (List.mem_append_right _ hkey)) hplain.2⟩
  agree hplain hreadable := by rw [f.agree hplain.1 hreadable, g.agree hplain.2 hreadable]
  plain {p} hnames h := by
    obtain ⟨hf, hg, _⟩ := List.nodup_append.mp hnames
    constructor
    · apply f.plain_eq _ (f.plain hf h.1)
      intro key hkey
      exact (values_left p.1 p.2 hnames key hkey).symm
    · apply g.plain_eq _ (g.plain hg h.2)
      intro key hkey
      exact (values_right p.1 p.2 hnames key hkey).symm
  readable finite h m hm := by
    cases List.mem_append.mp hm with
    | inl hm => exact f.readable finite h.1 m hm
    | inr hm => exact g.readable finite h.2 m hm
  round {p} s hnames h := by
    obtain ⟨hf, hg, _⟩ := List.nodup_append.mp hnames
    rw [f.read_eq (values_left p.1 p.2 hnames), g.read_eq (values_right p.1 p.2 hnames),
      f.round s hf h.1, g.round s hg h.2]
    rfl

/-- The fields of a record, or of one variant of a type. -/
def map (f : Fields α) (mk : α → β) (get : β → Option α)
    (hget : ∀ a b, get b = some a → mk a = b := by intro _ b h; cases b <;> cases h <;> rfl) :
    Fields β where
  names := f.names
  write b := (get b).elim [] f.write
  read s ms := (f.read s ms).map mk
  Valid b := ∃ a, get b = some a ∧ f.Valid a
  Plain := f.Plain
  named {b m} h := by
    cases hb : get b with
    | none =>
      rw [hb] at h
      cases h
    | some a =>
      rw [hb] at h
      exact f.named h
  once hnames b := by
    cases get b with
    | none => exact List.nodup_nil
    | some a => exact f.once hnames a
  read_eq h := by rw [f.read_eq h]
  plain_eq := f.plain_eq
  agree hplain hreadable := by rw [f.agree hplain hreadable]
  plain hnames h := by
    obtain ⟨a, ha, hvalid⟩ := h
    rw [ha]
    exact f.plain hnames hvalid
  readable finite h m hm := by
    obtain ⟨a, ha, hvalid⟩ := h
    rw [ha] at hm
    exact f.readable finite hvalid m hm
  round {b} s hnames h := by
    obtain ⟨a, ha, hvalid⟩ := h
    rw [ha, Option.elim_some, f.round s hnames hvalid, Option.map_some, hget a b ha]

section

variable {key : String} {s : Source} {ms : Members}

@[simp] theorem read_required (d : Serde α) :
    (required key d).read s ms = readField key d.read none s ms := rfl

@[simp] theorem read_optional (d : Serde (Option α)) :
    (optional key d).read s ms = readField key d.read (some none) s ms := rfl

@[simp] theorem read_skipped (d : Serde (Option α)) :
    (skipped key d).read s ms = readField key d.read (some none) s ms := rfl

@[simp] theorem read_defaulted (d : Serde (List α)) :
    (defaulted key d).read s ms = readField key d.read (some []) s ms := rfl

@[simp] theorem read_skippedEmpty (d : Serde (List α)) :
    (skippedEmpty key d).read s ms = readField key d.read (some []) s ms := rfl

@[simp] theorem read_and (f : Fields α) (g : Fields β) :
    (f.and g).read s ms =
      (f.read s ms).bind fun a => (g.read s ms).bind fun b => some (a, b) := rfl

@[simp] theorem read_map (f : Fields α) (mk : α → β) (get : β → Option α)
    (hget : ∀ a b, get b = some a → mk a = b) :
    (f.map mk get hget).read s ms = (f.read s ms).map mk := rfl

@[simp] theorem read_unit : unit.read s ms = some () := rfl

end

end Fields

namespace Serde

variable {α : Type}

@[simp] theorem read_option (d : Serde α) (hsome : ∀ a, d.write a ≠ .null) :
    (option d hsome).read = readOption d.read := rfl

@[simp] theorem read_vec (d : Serde α) : (vec d).read = readVec d.read := rfl

/-- A struct, which may refuse other keys. -/
def ofFields (strict : Bool) (f : Fields α) (hnames : f.names.Nodup) : Serde α where
  write a := .obj (f.write a)
  read := readStruct fun s ms =>
    if strict && ms.any (fun m => m.1 ∉ f.names) then none else f.read s ms
  Valid := f.Valid
  Plain
    | .obj ms => f.Plain ms
    | .arr _ => False
    | _ => True
  agree {finite v} hplain hreadable := by
    cases v with
    | obj ms =>
      have hsame := f.agree hplain (Json.readable_obj.mp hreadable)
      unfold readStruct
      dsimp only
      rw [hsame]
    | arr items => exact hplain.elim
    | null => rfl
    | bool b => rfl
    | num text => rfl
    | str s => rfl
  plain h := f.plain hnames h
  readable finite h := Json.readable_obj.mpr (f.readable finite h)
  round {a} s h := by
    have hknown : (f.write a).any (fun m => m.1 ∉ f.names) = false := by
      apply List.any_eq_false.mpr
      intro m hm
      simpa using f.named hm
    unfold readStruct
    dsimp only
    rw [hknown, Bool.and_false, if_neg nofun]
    exact f.round s hnames h

theorem read_ofFields {f : Fields α} {hnames : f.names.Nodup} {s : Source} {ms : Members} :
    (ofFields false f hnames).read s (.obj ms) = f.read s ms := rfl

def struct (f : Fields α) (hnames : f.names.Nodup := by decide) : Serde α :=
  ofFields false f hnames

@[simp] theorem read_struct (f : Fields α) (hnames : f.names.Nodup) (s : Source) (ms : Members) :
    (struct f hnames).read s (.obj ms) = f.read s ms := read_ofFields

/-- A struct that denies unknown fields. -/
def strict (f : Fields α) (hnames : f.names.Nodup := by decide) : Serde α :=
  ofFields true f hnames

/-- What is read of a text is buffered first. -/
def buffers : Source → Members → Bool
  | .text finite, ms => ms.all fun m => m.2.readable finite
  | .buffered, _ => true

/-- An enum with its variant's name under a key of the object, beside the variant's fields. A buffer
may have the variant's index for its name. -/
def readTagged (tag : String) (variants : List (String × Fields α)) (other : Option α) : Reads α :=
  fun s v =>
    match v with
    | .obj ms =>
      let rest := ms.filter (·.1 ≠ tag)
      let variant (found : Option (Fields α)) : Option α :=
        match found with
        | some f => f.read .buffered rest
        | none => other
      match values tag ms with
      | [.str name] => if buffers s rest then variant (variants.lookup name) else none
      | [.num text] =>
        match s, intOf text with
        | .buffered, some (.ofNat n) => variant (variants[n]?.map (·.2))
        | _, _ => none
      | _ => none
    | _ => none

section

variable {tag name : String} {variants : List (String × Fields α)} {other : Option α}
  {finite : String → Bool} {ms : Members} {f : Fields α}

theorem mem_of_lookup {γ : Type} {table : List (String × γ)} {c : γ}
    (h : table.lookup name = some c) : (name, c) ∈ table := by
  induction table with
  | nil => cases h
  | cons p table ih =>
    rw [List.lookup_cons] at h
    split at h
    next heq =>
      cases h
      rw [eq_of_beq heq]
      exact List.mem_cons_self
    next => exact List.mem_cons_of_mem p (ih h)

/-- The variant of a name reads the fields. -/
theorem readTagged_buffered (htag : ∀ p ∈ variants, tag ∉ p.2.names)
    (hname : values tag ms = [.str name]) :
    readTagged tag variants other .buffered (.obj ms) =
      match variants.lookup name with
      | some f => f.read .buffered ms
      | none => other := by
  unfold readTagged
  dsimp only
  rw [hname]
  dsimp only
  rw [if_pos (show buffers .buffered _ = true from rfl)]
  cases hfound : variants.lookup name with
  | none => rfl
  | some f =>
    apply f.read_eq
    intro key hkey
    apply values_filter
    intro heq
    exact htag (name, f) (mem_of_lookup hfound) (heq ▸ hkey)

/-- A tag that is not one name, nor an index. -/
theorem readTagged_none (hname : ∀ name, values tag ms ≠ [.str name])
    (hindex : ∀ text n, values tag ms = [.num text] → intOf text ≠ some (.ofNat n)) (s : Source) :
    readTagged tag variants other s (.obj ms) = none := by
  unfold readTagged
  dsimp only
  split
  next name heq => exact absurd heq (hname name)
  next text heq =>
    split
    next n hn => exact absurd hn (hindex text n heq)
    next => rfl
  next => rfl

theorem readTagged_text (hreadable : (Json.obj ms).readable finite = true)
    (hindex : ∀ text n, values tag ms = [.num text] → intOf text ≠ some (.ofNat n)) :
    readTagged tag variants other (.text finite) (.obj ms) =
      readTagged tag variants other .buffered (.obj ms) := by
  have hrest : buffers (.text finite) (ms.filter (·.1 ≠ tag)) = true := by
    apply List.all_eq_true.mpr
    intro m hm
    exact Json.readable_obj.mp hreadable m (List.mem_filter.mp hm).1
  by_cases hname : ∃ name, values tag ms = [.str name]
  · obtain ⟨name, hname⟩ := hname
    unfold readTagged
    dsimp only
    rw [hname]
    dsimp only
    rw [if_pos hrest, if_pos (show buffers .buffered _ = true from rfl)]
  · rw [readTagged_none (not_exists.mp hname) hindex, readTagged_none (not_exists.mp hname) hindex]

/-- What a variant writes beside its tag. -/
def body (variants : List (String × Fields α)) (name : String) (a : α) : Members :=
  (variants.lookup name).elim [] (·.write a)

theorem values_body (name : String) (a : α) (htag : ∀ p ∈ variants, tag ∉ p.2.names) :
    values tag ((tag, .str name) :: body variants name a) = [.str name] := by
  have hbody : values tag (body variants name a) = [] := by
    apply values_eq_nil
    unfold body
    cases hfound : variants.lookup name with
    | none => nofun
    | some f =>
      intro m hm heq
      exact htag (name, f) (mem_of_lookup hfound) (heq ▸ f.named hm)
  rw [values_cons, if_pos rfl, hbody]

theorem values_write {a : α} (htag : tag ∉ f.names) :
    ∀ key ∈ f.names, values key ((tag, .str name) :: f.write a) = values key (f.write a) := by
  intro key hkey
  have hne : tag ≠ key := fun heq => htag (heq ▸ hkey)
  rw [values_cons, if_neg hne]

theorem readable_body {a : α} (hvalid : ∀ f, variants.lookup name = some f → f.Valid a)
    (finite : String → Bool) :
    (Json.obj ((tag, .str name) :: body variants name a)).readable finite = true := by
  apply Json.readable_obj.mpr
  unfold body
  intro m hm
  cases List.mem_cons.mp hm with
  | inl heq =>
    rw [heq]
    rfl
  | inr hm =>
    cases hfound : variants.lookup name with
    | none =>
      rw [hfound] at hm
      cases hm
    | some f =>
      rw [hfound] at hm
      exact f.readable finite (hvalid f hfound) m hm

end

/-- The variants have the tag for themselves. -/
def tagged (tag : String) (variants : List (String × Fields α)) (other : Option α)
    (choose : α → String)
    (hvariants : ∀ p ∈ variants, tag ∉ p.2.names ∧ p.2.names.Nodup := by decide) : Serde α where
  write a := .obj ((tag, .str (choose a)) :: body variants (choose a) a)
  read := readTagged tag variants other
  Valid a :=
    match variants.lookup (choose a) with
    | some f => f.Valid a
    | none => other = some a
  Plain
    | .obj ms => (ms.map Prod.fst).Nodup ∧
      (∀ text n, values tag ms = [.num text] → intOf text ≠ some (.ofNat n)) ∧
      ∀ name f, values tag ms = [.str name] → variants.lookup name = some f → f.Plain ms
    | .arr _ => False
    | _ => True
  agree {finite v} hplain hreadable := by
    cases v with
    | obj ms => exact readTagged_text hreadable hplain.2.1
    | arr items => exact hplain.elim
    | null => rfl
    | bool b => rfl
    | num text => rfl
    | str s => rfl
  plain {a} h := by
    have htag : ∀ p ∈ variants, tag ∉ p.2.names := fun p hp => (hvariants p hp).1
    have hvalues := values_body (choose a) a htag
    refine ⟨?_, ?_, ?_⟩
    · rw [List.map_cons, List.nodup_cons]
      unfold body
      cases hfound : variants.lookup (choose a) with
      | none => exact ⟨List.not_mem_nil, List.nodup_nil⟩
      | some f =>
        obtain ⟨htagf, hnames⟩ := hvariants _ (mem_of_lookup hfound)
        refine ⟨?_, f.once hnames a⟩
        intro hmem
        obtain ⟨m, hm, heq⟩ := List.mem_map.mp hmem
        change m.1 = tag at heq
        exact htagf (heq ▸ f.named hm)
    · intro text n heq
      rw [hvalues] at heq
      cases heq
    · intro name f heq hfound
      rw [hvalues] at heq
      cases heq
      obtain ⟨htagf, hnames⟩ := hvariants _ (mem_of_lookup hfound)
      rw [hfound] at h
      apply f.plain_eq _ (f.plain hnames h)
      unfold body
      rw [hfound]
      exact fun key hkey => (values_write htagf key hkey).symm
  readable {a} finite h := by
    apply readable_body
    intro f hfound
    rw [hfound] at h
    exact h
  round {a} s h := by
    have htag : ∀ p ∈ variants, tag ∉ p.2.names := fun p hp => (hvariants p hp).1
    have hvalues := values_body (choose a) a htag
    have hvalid : ∀ f, variants.lookup (choose a) = some f → f.Valid a := by
      intro f hfound
      rw [hfound] at h
      exact h
    have hread : readTagged tag variants other .buffered
        (.obj ((tag, .str (choose a)) :: body variants (choose a) a)) = some a := by
      rw [readTagged_buffered htag hvalues]
      unfold body
      cases hfound : variants.lookup (choose a) with
      | none =>
        rw [hfound] at h
        exact h
      | some f =>
        obtain ⟨htagf, hnames⟩ := hvariants _ (mem_of_lookup hfound)
        rw [hfound] at h
        exact (f.read_eq (values_write htagf)).trans (f.round .buffered hnames h)
    cases s with
    | buffered => exact hread
    | text finite =>
      have hindex : ∀ text n, values tag ((tag, .str (choose a)) :: body variants (choose a) a) =
          [.num text] → intOf text ≠ some (.ofNat n) := by
        intro text n heq
        rw [hvalues] at heq
        cases heq
      exact (readTagged_text (readable_body hvalid finite) hindex).trans hread

/-- A number is no variant's name in a text. -/
theorem read_tagged_number {tag text : String} {variants : List (String × Fields α)}
    {other : Option α} {choose : α → String}
    {hvariants : ∀ p ∈ variants, tag ∉ p.2.names ∧ p.2.names.Nodup} {finite : String → Bool}
    {ms : Members} (hnumber : values tag ms = [.num text]) :
    (tagged tag variants other choose hvariants).read (.text finite) (.obj ms) = none := by
  change readTagged tag variants other (.text finite) (.obj ms) = none
  unfold readTagged
  dsimp only
  rw [hnumber]

/-- The name comes first, and then the fields of its variant from the same text. -/
theorem read_tagged {tag : String} {variants : List (String × Fields α)} {other : Option α}
    {choose : α → String}
    {hvariants : ∀ p ∈ variants, tag ∉ p.2.names ∧ p.2.names.Nodup} {finite : String → Bool}
    {ms : Members} (hplain : (tagged tag variants other choose hvariants).Plain (.obj ms))
    (hreadable : (Json.obj ms).readable finite = true) :
    (tagged tag variants other choose hvariants).read (.text finite) (.obj ms) =
      (readField tag string.read none (.text finite) ms).bind fun name =>
        match variants.lookup name with
        | some f => f.read (.text finite) ms
        | none => other := by
  obtain ⟨_, hindex, hfields⟩ := hplain
  have htag : ∀ p ∈ variants, tag ∉ p.2.names := fun p hp => (hvariants p hp).1
  by_cases hname : ∃ name, values tag ms = [.str name]
  · obtain ⟨name, hname⟩ := hname
    rw [readField_eq hname]
    refine (readTagged_text hreadable hindex).trans ((readTagged_buffered htag hname).trans ?_)
    change _ = (some name).bind _
    rw [Option.bind_some]
    cases hfound : variants.lookup name with
    | none => rfl
    | some f => exact (f.agree (hfields name f hname hfound) (Json.readable_obj.mp hreadable)).symm
  · have hnone : readField tag string.read none (.text finite) ms = none := by
      unfold readField
      split
      next => rfl
      next v heq =>
        cases v with
        | str name => exact absurd ⟨name, heq⟩ hname
        | _ => rfl
      next => rfl
    rw [hnone]
    exact readTagged_none (not_exists.mp hname) hindex _

end Serde

end Agend.Library
