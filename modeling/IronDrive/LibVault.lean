import Mathlib.Data.List.Basic
import Mathlib.Data.List.Infix
import Mathlib.Logic.Function.Basic

/-! Stores of values under hierarchical names. A store is a function from paths to items; its fields say that
the root is a folder and that whatever is there lies in a folder. Requests change a store or are refused with a
reason, and `answer` says which; names and values are arbitrary. -/

namespace Lib

universe u v

inductive Item (α : Type v)
  | folder
  | value (content : α)
  deriving DecidableEq

def Item.isFolder {α : Type v} : Item α → Bool
  | .folder => true
  | .value _ => false

structure Vault (κ : Type u) (α : Type v) where
  item : List κ → Option (Item α)
  root : item [] = some .folder
  parent : ∀ path, path ≠ [] → item path ≠ none → item path.dropLast = some .folder

/-- Why a request is refused. -/
inductive Refusal
  | malformed
  | locked
  | missing
  | occupied
  | failed
  deriving DecidableEq

/-- What a store answers: what it was asked for, or a refusal. -/
inductive Reply (κ : Type u) (α : Type v)
  | done
  | value (content : α)
  /-- The names in a folder, each with whether it is a folder. -/
  | names (shown : κ → Option Bool)
  | refused (why : Refusal)

/-- A request names paths by addresses of some other type. -/
inductive VaultRequest (ν : Type u) (α : Type v)
  | mkdir (address : ν)
  | put (address : ν) (content : α)
  | fetch (address : ν)
  | list (address : ν)
  | move (source dest : ν)
  | remove (address : ν)

namespace Vault

variable {κ : Type u} {α : Type v} {w : Vault κ α} {path p : List κ}

/-- The store with nothing but its root. -/
def empty [DecidableEq κ] : Vault κ α where
  item path := if path = [] then some .folder else none
  root := if_pos rfl
  parent path hne h := by
    rw [if_neg hne] at h
    exact absurd rfl h

theorem ext {w w' : Vault κ α} (h : w.item = w'.item) : w = w' := by
  obtain ⟨item, _, _⟩ := w
  obtain ⟨item', _, _⟩ := w'
  obtain rfl : item = item' := h
  rfl

/-- Everything strictly above an item is a folder. -/
theorem folder_above {stop : List κ} (hpre : path <+: stop) (hne : path ≠ stop) (h : w.item stop ≠ none) :
    w.item path = some .folder := by
  obtain ⟨rest, rfl⟩ := hpre
  induction rest using List.reverseRecOn with
  | nil => exact absurd (List.append_nil path).symm hne
  | append_singleton rest name ih =>
      have hparent := w.parent (path ++ (rest ++ [name])) (by simp) h
      rw [← List.append_assoc, List.dropLast_concat] at hparent
      by_cases hrest : rest = []
      · rw [hrest, List.append_nil] at hparent
        exact hparent
      · exact ih (by simpa using hrest) (by rw [hparent]; simp)

section Changes

variable [DecidableEq κ]

/-- Make a path a folder, with everything above it. -/
def fill (w : Vault κ α) (path : List κ) : Vault κ α where
  item p := if p <+: path then some .folder else w.item p
  root := if_pos List.nil_prefix
  parent p hp h := by
    by_cases habove : p.dropLast <+: path
    · rw [if_pos habove]
    · have hnot : ¬ p <+: path := fun hpre => habove (p.dropLast_prefix.trans hpre)
      rw [if_neg hnot] at h
      rw [if_neg habove]
      exact w.parent p hp h

/-- Put a value at a path other than the root, in place of whatever was there. -/
def place (w : Vault κ α) (path : List κ) (content : α) : Vault κ α :=
  if hpath : path = [] then w
  else
    { item := fun p =>
        if p <+: path.dropLast then some .folder
        else if p = path then some (.value content)
        else if path <+: p then none else w.item p
      root := if_pos List.nil_prefix
      parent := by
        intro p hp h
        by_cases habove : p.dropLast <+: path.dropLast
        · rw [if_pos habove]
        · have hnot : ¬ p <+: path.dropLast := fun hpre => habove (p.dropLast_prefix.trans hpre)
          have hother : p ≠ path := by
            intro heq
            rw [heq] at habove
            exact habove List.prefix_rfl
          rw [if_neg hnot, if_neg hother] at h
          have hout : ¬ path <+: p := fun hpre => h (if_pos hpre)
          rw [if_neg hout] at h
          have hout' : ¬ path <+: p.dropLast := fun hpre => hout (hpre.trans p.dropLast_prefix)
          have hdiff : p.dropLast ≠ path := fun heq => hout' (heq ▸ List.prefix_rfl)
          rw [if_neg habove, if_neg hdiff, if_neg hout']
          exact w.parent p hp h }

/-- Take away what is at a path and below it; the root stays. -/
def cut (w : Vault κ α) (path : List κ) : Vault κ α :=
  if hpath : path = [] then w
  else
    { item := fun p => if path <+: p then none else w.item p
      root := by
        rw [if_neg (by simpa using hpath)]
        exact w.root
      parent := by
        intro p hp h
        have hout : ¬ path <+: p := fun hpre => h (if_pos hpre)
        rw [if_neg hout] at h
        have hout' : ¬ path <+: p.dropLast := fun hpre => hout (hpre.trans p.dropLast_prefix)
        rw [if_neg hout']
        exact w.parent p hp h }

/-- A path can be moved to a free one in a folder, outside itself. -/
structure Movable (w : Vault κ α) (source dest : List κ) : Prop where
  outside : ¬ source <+: dest
  not_above : ¬ dest <+: source
  folder : w.item dest.dropLast = some .folder

/-- Move what is at a path, with all below it. -/
def shift (w : Vault κ α) (source dest : List κ) (h : w.Movable source dest) : Vault κ α where
  item p :=
    if dest <+: p then w.item (source ++ p.drop dest.length)
    else if source <+: p then none else w.item p
  root := by
    have hsource : ¬ source <+: [] := fun hpre => h.outside (List.prefix_nil.mp hpre ▸ List.nil_prefix)
    have hdest : ¬ dest <+: [] := fun hpre => h.not_above (List.prefix_nil.mp hpre ▸ List.nil_prefix)
    rw [if_neg hdest, if_neg hsource]
    exact w.root
  parent p hp hitem := by
    by_cases hbelow : dest <+: p
    · rw [if_pos hbelow] at hitem
      obtain ⟨rest, rfl⟩ := hbelow
      rw [List.drop_left] at hitem
      by_cases hrest : rest = []
      · have hnot : ¬ dest <+: (dest ++ rest).dropLast := by
          rw [hrest, List.append_nil]
          intro hpre
          have hlength := hpre.length_le
          have hpos := List.length_pos_of_ne_nil (by simpa [hrest] using hp)
          rw [List.length_dropLast] at hlength
          omega
        have hparent : (dest ++ rest).dropLast = dest.dropLast := by rw [hrest, List.append_nil]
        have hsource : ¬ source <+: dest.dropLast := fun hpre => h.outside (hpre.trans dest.dropLast_prefix)
        rw [if_neg hnot, hparent, if_neg hsource]
        exact h.folder
      · rw [List.dropLast_append_of_ne_nil hrest, if_pos (List.prefix_append dest _), List.drop_left]
        have hparent := w.parent (source ++ rest) (by simp [hrest]) hitem
        rwa [List.dropLast_append_of_ne_nil hrest] at hparent
    · rw [if_neg hbelow] at hitem
      have hout : ¬ source <+: p := fun hpre => hitem (if_pos hpre)
      rw [if_neg hout] at hitem
      have hbelow' : ¬ dest <+: p.dropLast := fun hpre => hbelow (hpre.trans p.dropLast_prefix)
      have hout' : ¬ source <+: p.dropLast := fun hpre => hout (hpre.trans p.dropLast_prefix)
      rw [if_neg hbelow', if_neg hout']
      exact w.parent p hp hitem

end Changes

/-- No value stands above the path. -/
def Clear (w : Vault κ α) (path : List κ) : Prop :=
  ∀ front, front <+: path → front ≠ path → ∀ content, w.item front ≠ some (.value content)

/-- The path may be changed: it is not the root, and no value stands above it. -/
def Open (w : Vault κ α) (path : List κ) : Prop := path ≠ [] ∧ w.Clear path

section Answers

variable [DecidableEq κ]

open Classical in
noncomputable def mkdir (w : Vault κ α) (path : List κ) : Reply κ α × Vault κ α :=
  if ¬ w.Open path then (.refused .malformed, w)
  else
    match w.item path with
    | some (.value _) => (.refused .occupied, w)
    | _ => (.done, w.fill path)

open Classical in
noncomputable def put (w : Vault κ α) (path : List κ) (content : α) : Reply κ α × Vault κ α :=
  if ¬ w.Open path then (.refused .malformed, w)
  else
    match w.item path with
    | some .folder => (.refused .occupied, w)
    | _ => (.done, w.place path content)

open Classical in
noncomputable def fetch (w : Vault κ α) (path : List κ) : Reply κ α :=
  if ¬ w.Open path then .refused .malformed
  else
    match w.item path with
    | none => .refused .missing
    | some .folder => .refused .malformed
    | some (.value content) => .value content

open Classical in
/-- The root is listed too. -/
noncomputable def list (w : Vault κ α) (shown : κ → Bool) (path : List κ) : Reply κ α :=
  if ¬ w.Clear path then .refused .malformed
  else
    match w.item path with
    | none => .refused .missing
    | some (.value _) => .refused .malformed
    | some .folder => .names fun name =>
        if shown name = true then (w.item (path ++ [name])).map Item.isFolder else none

open Classical in
/-- The folders above the destination are made first. A move into itself fails, and they stay. -/
noncomputable def move (w : Vault κ α) (source dest : List κ) : Reply κ α × Vault κ α :=
  if ¬ w.Open source ∨ ¬ w.Open dest then (.refused .malformed, w)
  else if w.item source = none then (.refused .missing, w)
  else if w.item dest ≠ none then (.refused .occupied, w)
  else if h : (w.fill dest.dropLast).Movable source dest then (.done, (w.fill dest.dropLast).shift source dest h)
  else (.refused .failed, w.fill dest.dropLast)

open Classical in
noncomputable def remove (w : Vault κ α) (path : List κ) : Reply κ α × Vault κ α :=
  if ¬ w.Open path then (.refused .malformed, w)
  else if w.item path = none then (.refused .missing, w)
  else (.done, w.cut path)

variable {ν : Type u}

/-- Continue with the path an address stands for. -/
def reading (w : Vault κ α) (read : ν → Option (List κ)) (address : ν) (next : List κ → Reply κ α × Vault κ α) :
    Reply κ α × Vault κ α :=
  match read address with
  | none => (.refused .malformed, w)
  | some path => next path

open Classical in
/-- Contents are out of reach while the store is locked, except that the root's is never asked for. -/
noncomputable def whenUnlocked (w : Vault κ α) (unlocked : Prop) (read : ν → Option (List κ)) (address : ν)
    (next : Reply κ α × Vault κ α) : Reply κ α × Vault κ α :=
  if read address = some [] then (.refused .malformed, w)
  else if unlocked then next else (.refused .locked, w)

/-- What a store answers to a request, and what becomes of it. -/
noncomputable def answer (w : Vault κ α) (read : ν → Option (List κ)) (shown : κ → Bool) (unlocked : Prop) :
    VaultRequest ν α → Reply κ α × Vault κ α
  | .mkdir address => w.reading read address w.mkdir
  | .put address content =>
      w.whenUnlocked unlocked read address (w.reading read address fun path => w.put path content)
  | .fetch address =>
      w.whenUnlocked unlocked read address (w.reading read address fun path => (w.fetch path, w))
  | .list address => w.reading read address fun path => (w.list shown path, w)
  | .move source dest =>
      w.reading read source fun source => w.reading read dest fun dest => w.move source dest
  | .remove address => w.reading read address w.remove

end Answers

/-- A request that can take the value at a path away: one that puts another there, or that moves or removes what is
there or above. -/
def Disturbs {ν : Type u} (read : ν → Option (List κ)) (path : List κ) : VaultRequest ν α → Prop
  | .put address _ => read address = some path
  | .move source _ => ∃ taken, read source = some taken ∧ taken <+: path
  | .remove address => ∃ taken, read address = some taken ∧ taken <+: path
  | _ => False

variable {content : α}

/-- No value lies above an open path. -/
theorem not_above_open {target : List κ} (hopen : w.Open target) (hitem : w.item path = some (.value content))
    (hne : path ≠ target) : ¬ path <+: target := fun hpre => hopen.2 path hpre hne content hitem

section Kept

variable [DecidableEq κ] (hitem : w.item path = some (.value content))

include hitem

theorem fill_keeps {target : List κ} (hnot : ¬ path <+: target) :
    (w.fill target).item path = some (.value content) := by
  show (if path <+: target then some .folder else w.item path) = some (.value content)
  rw [if_neg hnot, hitem]

theorem mkdir_keeps (target : List κ) : (w.mkdir target).2.item path = some (.value content) := by
  unfold mkdir
  by_cases hopen : w.Open target
  · rw [if_neg (not_not.mpr hopen)]
    have hfill : path ≠ target → (w.fill target).item path = some (.value content) := fun hne =>
      fill_keeps hitem (not_above_open hopen hitem hne)
    cases htarget : w.item target with
    | none => exact hfill fun heq => by rw [heq, htarget] at hitem; cases hitem
    | some item =>
        cases item with
        | folder => exact hfill fun heq => by rw [heq, htarget] at hitem; cases hitem
        | value other => exact hitem
  · rw [if_pos hopen]
    exact hitem

theorem put_keeps {target : List κ} (hne : path ≠ target) (other : α) :
    (w.put target other).2.item path = some (.value content) := by
  unfold put
  by_cases hopen : w.Open target
  · rw [if_neg (not_not.mpr hopen)]
    have hplace : w.item target ≠ some .folder → (w.place target other).item path = some (.value content) := by
      intro hfolder
      have habove : ¬ path <+: target.dropLast := fun hpre =>
        not_above_open hopen hitem hne (hpre.trans target.dropLast_prefix)
      have hbelow : ¬ target <+: path := fun hpre =>
        hfolder (w.folder_above hpre (Ne.symm hne) (by rw [hitem]; simp))
      rw [place, dif_neg hopen.1]
      show (if path <+: target.dropLast then some .folder else if path = target then some (.value other)
        else if target <+: path then none else w.item path) = some (.value content)
      rw [if_neg habove, if_neg hne, if_neg hbelow, hitem]
    cases htarget : w.item target with
    | none => exact hplace (by rw [htarget]; simp)
    | some item =>
        cases item with
        | folder => exact hitem
        | value found => exact hplace (by rw [htarget]; simp)
  · rw [if_pos hopen]
    exact hitem

theorem move_keeps {source dest : List κ} (hsource : ¬ source <+: path) :
    (w.move source dest).2.item path = some (.value content) := by
  unfold move
  by_cases hopen : ¬ w.Open source ∨ ¬ w.Open dest
  · rw [if_pos hopen]
    exact hitem
  rw [if_neg hopen]
  by_cases hpresent : w.item source = none
  · rw [if_pos hpresent]
    exact hitem
  rw [if_neg hpresent]
  by_cases hvacant : w.item dest = none
  · have hdest : w.Open dest := not_not.mp fun hnot => hopen (Or.inr hnot)
    have hne : path ≠ dest := fun heq => by rw [heq, hvacant] at hitem; cases hitem
    have hfill : (w.fill dest.dropLast).item path = some (.value content) :=
      fill_keeps hitem fun hpre => not_above_open hdest hitem hne (hpre.trans dest.dropLast_prefix)
    rw [if_neg (not_not.mpr hvacant)]
    split
    · have hbelow : ¬ dest <+: path := by
        intro hpre
        have hfolder := w.folder_above hpre (Ne.symm hne) (by rw [hitem]; simp)
        rw [hvacant] at hfolder
        cases hfolder
      show (if dest <+: path then _ else if source <+: path then none else (w.fill dest.dropLast).item path) = _
      rw [if_neg hbelow, if_neg hsource, hfill]
    · exact hfill
  · rw [if_pos hvacant]
    exact hitem

theorem remove_keeps {target : List κ} (htarget : ¬ target <+: path) :
    (w.remove target).2.item path = some (.value content) := by
  unfold remove
  by_cases hopen : w.Open target
  · rw [if_neg (not_not.mpr hopen)]
    by_cases hnone : w.item target = none
    · rw [if_pos hnone]
      exact hitem
    · rw [if_neg hnone, cut, dif_neg hopen.1]
      show (if target <+: path then none else w.item path) = some (.value content)
      rw [if_neg htarget, hitem]
  · rw [if_pos hopen]
    exact hitem

/-- A value stays where it is under every request that does not disturb it. -/
theorem answer_keeps {ν : Type u} {read : ν → Option (List κ)} {shown : κ → Bool} {unlocked : Prop}
    {request : VaultRequest ν α} (hrequest : ¬ Disturbs read path request) :
    (w.answer read shown unlocked request).2.item path = some (.value content) := by
  have hreading : ∀ (address : ν) (next : List κ → Reply κ α × Vault κ α),
      (∀ target, read address = some target → (next target).2.item path = some (.value content)) →
        (w.reading read address next).2.item path = some (.value content) := by
    intro address next hnext
    unfold reading
    cases hread : read address with
    | none => exact hitem
    | some target => exact hnext target hread
  have hunlocked : ∀ (address : ν) (next : Reply κ α × Vault κ α), next.2.item path = some (.value content) →
      (w.whenUnlocked unlocked read address next).2.item path = some (.value content) := by
    intro address next hnext
    unfold whenUnlocked
    split_ifs
    · exact hitem
    · exact hnext
    · exact hitem
  cases request with
  | mkdir address => exact hreading address _ fun target _ => mkdir_keeps hitem target
  | put address other =>
      apply hunlocked
      apply hreading
      intro target hread
      exact put_keeps hitem (fun heq => hrequest (heq ▸ hread)) other
  | fetch address =>
      apply hunlocked
      apply hreading
      intro target _
      exact hitem
  | list address => exact hreading address _ fun target _ => hitem
  | move source dest =>
      apply hreading
      intro taken hread
      exact hreading dest _ fun target _ => move_keeps hitem fun hpre => hrequest ⟨taken, hread, hpre⟩
  | remove address =>
      apply hreading
      intro taken hread
      exact remove_keeps hitem fun hpre => hrequest ⟨taken, hread, hpre⟩

end Kept

/-- What a successful put leaves at its path. -/
theorem put_done [DecidableEq κ] {target : List κ} (h : (w.put target content).1 = .done) :
    (w.put target content).2.item target = some (.value content) := by
  unfold put at h ⊢
  by_cases hopen : w.Open target
  · rw [if_neg (not_not.mpr hopen)] at h ⊢
    have hplace : (w.place target content).item target = some (.value content) := by
      have hnot : ¬ target <+: target.dropLast := by
        intro hpre
        have hlength := hpre.length_le
        have hpos := List.length_pos_of_ne_nil hopen.1
        rw [List.length_dropLast] at hlength
        omega
      rw [place, dif_neg hopen.1]
      show (if target <+: target.dropLast then some Item.folder else if target = target then some (.value content)
        else if target <+: target then none else w.item target) = some (.value content)
      rw [if_neg hnot, if_pos rfl]
    cases htarget : w.item target with
    | none => exact hplace
    | some item =>
        cases item with
        | folder =>
            rw [htarget] at h
            cases h
        | value other => exact hplace
  · rw [if_pos hopen] at h
    cases h

/-- A fetch finds the value at its path. -/
theorem fetch_value (hpath : path ≠ []) (hitem : w.item path = some (.value content)) :
    w.fetch path = .value content := by
  have hopen : w.Open path := by
    refine ⟨hpath, fun front hfront hne other hother => ?_⟩
    rw [w.folder_above hfront hne (by rw [hitem]; simp)] at hother
    cases hother
  rw [fetch, if_neg (not_not.mpr hopen), hitem]

/-- A fetch that gives a value found it. -/
theorem item_of_fetch (h : w.fetch path = .value content) : w.item path = some (.value content) := by
  unfold fetch at h
  split_ifs at h
  cases hitem : w.item path with
  | none =>
      rw [hitem] at h
      cases h
  | some item =>
      rw [hitem] at h
      cases item with
      | folder => cases h
      | value found =>
          cases h
          rfl

/-! ### Where values come from -/

section Origins

variable [DecidableEq κ]

theorem fill_origin {target : List κ} (h : (w.fill target).item path = some (.value content)) :
    w.item path = some (.value content) := by
  have hitem : (if path <+: target then some .folder else w.item path) = some (.value content) := h
  split_ifs at hitem
  · cases hitem
  · exact hitem

theorem mkdir_origin {target : List κ} (h : (w.mkdir target).2.item path = some (.value content)) :
    w.item path = some (.value content) := by
  unfold mkdir at h
  by_cases hopen : w.Open target
  · rw [if_neg (not_not.mpr hopen)] at h
    cases htarget : w.item target with
    | none =>
        rw [htarget] at h
        exact fill_origin h
    | some item =>
        rw [htarget] at h
        cases item with
        | folder => exact fill_origin h
        | value found => exact h
  · rw [if_pos hopen] at h
    exact h

theorem put_origin {target : List κ} {other : α} (h : (w.put target other).2.item path = some (.value content)) :
    w.item path = some (.value content) ∨ (content = other ∧ (w.put target other).1 = .done) := by
  unfold put at h ⊢
  by_cases hopen : w.Open target
  · rw [if_neg (not_not.mpr hopen)] at h ⊢
    have hplace : (w.place target other).item path = some (.value content) →
        w.item path = some (.value content) ∨ content = other := by
      intro hplaced
      rw [place, dif_neg hopen.1] at hplaced
      have hitem : (if path <+: target.dropLast then some Item.folder else if path = target then some (.value other)
        else if target <+: path then none else w.item path) = some (.value content) := hplaced
      split_ifs at hitem
      · cases hitem
      · cases hitem
        exact Or.inr rfl
      · exact Or.inl hitem
    cases htarget : w.item target with
    | none =>
        rw [htarget] at h
        exact (hplace h).imp_right fun heq => ⟨heq, rfl⟩
    | some item =>
        rw [htarget] at h
        cases item with
        | folder => exact Or.inl h
        | value found => exact (hplace h).imp_right fun heq => ⟨heq, rfl⟩
  · rw [if_pos hopen] at h
    exact Or.inl h

theorem move_origin {source dest : List κ} (h : (w.move source dest).2.item path = some (.value content)) :
    ∃ old, w.item old = some (.value content) := by
  unfold move at h
  split_ifs at h with _ _ _ hmovable
  · exact ⟨_, h⟩
  · exact ⟨_, h⟩
  · exact ⟨_, h⟩
  · have hitem : (if dest <+: path then (w.fill dest.dropLast).item (source ++ path.drop dest.length)
      else if source <+: path then none else (w.fill dest.dropLast).item path) = some (.value content) := h
    split_ifs at hitem
    · exact ⟨_, fill_origin hitem⟩
    · exact ⟨_, fill_origin hitem⟩
  · exact ⟨_, fill_origin h⟩

theorem remove_origin {target : List κ} (h : (w.remove target).2.item path = some (.value content)) :
    w.item path = some (.value content) := by
  unfold remove at h
  by_cases hopen : w.Open target
  · rw [if_neg (not_not.mpr hopen)] at h
    split_ifs at h
    · exact h
    · rw [cut, dif_neg hopen.1] at h
      have hitem : (if target <+: path then none else w.item path) = some (.value content) := h
      split_ifs at hitem
      exact hitem
  · rw [if_pos hopen] at h
    exact h

/-- Every value in a vault after a request was there before, perhaps elsewhere, or the request has put it. -/
theorem answer_origin {ν : Type u} {read : ν → Option (List κ)} {shown : κ → Bool} {unlocked : Prop}
    {request : VaultRequest ν α} (h : (w.answer read shown unlocked request).2.item path = some (.value content)) :
    (∃ old, w.item old = some (.value content)) ∨
      ∃ address, request = .put address content ∧ (w.answer read shown unlocked request).1 = .done := by
  have hreading : ∀ {address : ν} {next : List κ → Reply κ α × Vault κ α},
      (w.reading read address next).2.item path = some (.value content) →
        w.item path = some (.value content) ∨ ∃ target, read address = some target ∧
          (next target).2.item path = some (.value content) := by
    intro address next hitem
    unfold reading at hitem
    cases hread : read address with
    | none =>
        rw [hread] at hitem
        exact Or.inl hitem
    | some target =>
        rw [hread] at hitem
        exact Or.inr ⟨target, rfl, hitem⟩
  have hunlocked : ∀ {address : ν} {next : Reply κ α × Vault κ α},
      (w.whenUnlocked unlocked read address next).2.item path = some (.value content) →
        w.item path = some (.value content) ∨ (w.whenUnlocked unlocked read address next = next ∧
          next.2.item path = some (.value content)) := by
    intro address next hitem
    unfold whenUnlocked at hitem ⊢
    split_ifs at hitem ⊢
    · exact Or.inl hitem
    · exact Or.inr ⟨rfl, hitem⟩
    · exact Or.inl hitem
  cases request with
  | mkdir address =>
      rcases hreading h with hold | ⟨target, -, hnext⟩
      · exact Or.inl ⟨path, hold⟩
      · exact Or.inl ⟨path, mkdir_origin hnext⟩
  | put address other =>
      rcases hunlocked h with hold | ⟨hopen, hnext⟩
      · exact Or.inl ⟨path, hold⟩
      · rcases hreading hnext with hold | ⟨target, hread, hput⟩
        · exact Or.inl ⟨path, hold⟩
        · rcases put_origin hput with hold | ⟨rfl, hdone⟩
          · exact Or.inl ⟨path, hold⟩
          · refine Or.inr ⟨address, rfl, ?_⟩
            show (w.whenUnlocked unlocked read address _).1 = .done
            rw [hopen, reading, hread]
            exact hdone
  | fetch address =>
      rcases hunlocked h with hold | ⟨-, hnext⟩
      · exact Or.inl ⟨path, hold⟩
      · rcases hreading hnext with hold | ⟨target, -, hitem⟩
        · exact Or.inl ⟨path, hold⟩
        · exact Or.inl ⟨path, hitem⟩
  | list address =>
      rcases hreading h with hold | ⟨target, -, hitem⟩
      · exact Or.inl ⟨path, hold⟩
      · exact Or.inl ⟨path, hitem⟩
  | move source dest =>
      rcases hreading h with hold | ⟨target, -, hnext⟩
      · exact Or.inl ⟨path, hold⟩
      · rcases hreading hnext with hold | ⟨target', -, hmoved⟩
        · exact Or.inl ⟨path, hold⟩
        · exact Or.inl (move_origin hmoved)
  | remove address =>
      rcases hreading h with hold | ⟨target, -, hnext⟩
      · exact Or.inl ⟨path, hold⟩
      · exact Or.inl ⟨path, remove_origin hnext⟩

end Origins

/-- Only a fetch gives a value, and it was in the vault. -/
theorem answer_value [DecidableEq κ] {ν : Type u} {read : ν → Option (List κ)} {shown : κ → Bool} {unlocked : Prop}
    {request : VaultRequest ν α} (h : (w.answer read shown unlocked request).1 = .value content) :
    ∃ path, w.item path = some (.value content) := by
  have hreading : ∀ {address : ν} {next : List κ → Reply κ α × Vault κ α},
      (w.reading read address next).1 = .value content → ∃ target, (next target).1 = .value content := by
    intro address next hreply
    unfold reading at hreply
    cases hread : read address with
    | none =>
        rw [hread] at hreply
        cases hreply
    | some target =>
        rw [hread] at hreply
        exact ⟨target, hreply⟩
  have hunlocked : ∀ {address : ν} {next : Reply κ α × Vault κ α},
      (w.whenUnlocked unlocked read address next).1 = .value content → next.1 = .value content := by
    intro address next hreply
    unfold whenUnlocked at hreply
    split_ifs at hreply
    exact hreply
  cases request with
  | mkdir address =>
      obtain ⟨target, hreply⟩ := hreading h
      unfold mkdir at hreply
      split at hreply
      · cases hreply
      · split at hreply <;> cases hreply
  | put address other =>
      obtain ⟨target, hreply⟩ := hreading (hunlocked h)
      unfold put at hreply
      split at hreply
      · cases hreply
      · split at hreply <;> cases hreply
  | fetch address =>
      obtain ⟨target, hreply⟩ := hreading (hunlocked h)
      exact ⟨target, item_of_fetch hreply⟩
  | list address =>
      obtain ⟨target, hreply⟩ := hreading h
      unfold list at hreply
      split at hreply
      · cases hreply
      · split at hreply <;> cases hreply
  | move source dest =>
      obtain ⟨target, hnext⟩ := hreading h
      obtain ⟨target', hreply⟩ := hreading hnext
      unfold move at hreply
      split_ifs at hreply
  | remove address =>
      obtain ⟨target, hreply⟩ := hreading h
      unfold remove at hreply
      split_ifs at hreply

end Vault

end Lib
