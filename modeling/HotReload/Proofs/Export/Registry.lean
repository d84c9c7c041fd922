import HotReload.Export.Call
import Mathlib.Data.List.Induction
import Mathlib.Data.List.Nodup

/-!
# Slots that keys share

A registry seen from outside is a map from the lower-case texts of keys to slots, and what each slot
holds. A call makes, fills, sets or releases at most one slot; which keys lead to it, and what all
others hold, stays as it was.
-/
namespace HotReload

/-- What an offer has for an empty slot: what the factory makes when it is called first if there is
one, and else the default. -/
def ExportOffer.made (o : ExportOffer) : Except Failure Value :=
  o.factory.elim (.ok o.default) fun factory => factory.result 0

namespace ExportCall

open ExportRegistry (normalize)

/-- The key whose slot the call makes if there is none. -/
def opens? : ExportCall → Option String
  | .handle key _ | .get key _ | .set key _ | .setIfAbsent key _ => some key
  | _ => none

/-- What the call fills its slot with if that is empty. -/
def offer? : ExportCall → Option ExportOffer
  | .handle _ o | .get _ o | .setIfAbsent _ o | .slotGet _ o | .slotSetIfAbsent _ o => some o
  | _ => none

/-- What the call writes to its slot whatever that holds. -/
def sets? : ExportCall → Option Value
  | .set _ v | .slotSet _ v => some v
  | _ => none

/-- Whether the call is answered with a value, and not with a slot. -/
def reads : ExportCall → Bool
  | .get .. | .slotGet .. => true
  | _ => false

def slot? : ExportCall → Option Nat
  | .slotGet slot _ | .slotSet slot _ | .slotSetIfAbsent slot _ => some slot
  | _ => none

/-- Whether the call makes the slot of a key if there is none. -/
def Opens (c : ExportCall) (key : String) : Prop := c.opens?.map normalize = some (normalize key)

instance (c : ExportCall) (key : String) : Decidable (c.Opens key) :=
  inferInstanceAs (Decidable (_ = _))

/-- Whether the call takes the slot of a key away. -/
def Removes (c : ExportCall) (key : String) : Prop :=
  ∃ k, c = .remove k ∧ normalize k = normalize key

instance (c : ExportCall) (key : String) : Decidable (c.Removes key) :=
  match c with
  | .remove k => decidable_of_iff (normalize k = normalize key) (by simp [Removes])
  | .handle .. | .get .. | .set .. | .setIfAbsent .. | .has .. | .contains .. | .slotGet ..
  | .slotSet ..
  | .slotSetIfAbsent .. => isFalse fun ⟨_, h, _⟩ => by cases h

/-- The slot that the call fills or sets. -/
def target? (c : ExportCall) (r : ExportRegistry) : Option Nat :=
  match c.opens? with
  | some key => some ((r.slotOf? key).getD r.slots.length)
  | none => c.slot?

/-- What the slot of the call is to hold after it: what the call sets, and else what was held or, if
that is null, what is offered. -/
def puts (c : ExportCall) (held : Value) : Except Failure Value :=
  match c.sets?, c.offer? with
  | some v, _ => .ok v
  | none, some o => if held.isNull then o.made else .ok held
  | none, none => .ok held

def callsFactory (c : ExportCall) (held : Value) : Bool :=
  held.isNull && c.offer?.any (·.factory.isSome)

end ExportCall

namespace ExportRegistry

variable {r r' : ExportRegistry} {c : ExportCall} {key k : String} {s slot : Nat} {v : Value}

/-- Whether a key leads to a slot that holds a value. -/
def Holds (r : ExportRegistry) (key : String) : Prop :=
  ∃ s, r.slotOf? key = some s ∧ (r.read s).isNull = false

/-- Whether a call was answered as it should be, and its effect is on its own slot or key only. -/
structure Abides (r : ExportRegistry) (c : ExportCall) (reply : ExportReply) (r' : ExportRegistry) :
    Prop where
  leads : ∀ key, r'.slotOf? key =
    if c.Removes key then none else if c.Opens key then c.target? r else r.slotOf? key
  made : ∀ s, s < r'.slots.length ↔ s < r.slots.length ∨ c.opens?.isSome ∧ c.target? r = some s
  holds : ∀ s < r'.slots.length, r'.read s =
    if c.target? r = some s then (c.puts (r.read s)).toOption.getD (r.read s) else r.read s
  answers : ∀ s, c.target? r = some s →
    reply.answer = (c.puts (r.read s)).map fun _ => if c.reads then .value (r'.read s) else .slot s
  tells : ∀ key, c = .has key ∨ c = .contains (.text key) →
    ∃ b, reply.answer = .ok (.truth b) ∧ (b = true ↔ r.Holds key)
  denies : ∀ x, c = .contains x → (∀ key, x ≠ .text key) → reply.answer = .ok (.truth false)
  calls : reply.factoryCalls = if (c.target? r).any fun s => c.callsFactory (r.read s) then 1 else 0

/-! ### The parts of a call -/

theorem slotOf?_congr (h : r'.keys = r.keys) : r'.slotOf? key = r.slotOf? key := by
  rw [slotOf?, h, slotOf?]

theorem slotOf?_normalize (h : normalize k = normalize key) : r.slotOf? k = r.slotOf? key := by
  rw [slotOf?, slotOf?, h]

@[simp] theorem keys_write : (r.write slot v).keys = r.keys := rfl

@[simp] theorem length_write : (r.write slot v).slots.length = r.slots.length :=
  List.length_modify _ _ _

theorem read_write (hs : s < r.slots.length) :
    (r.write slot v).read s = if slot = s then v else r.read s := by
  unfold read write
  rw [List.getElem?_modify, List.getElem?_eq_getElem hs]
  by_cases h : slot = s <;> simp [h]

theorem slotFor_fst : (r.slotFor key).1 = (r.slotOf? key).getD r.slots.length := by
  unfold slotFor
  cases r.slotOf? key <;> rfl

theorem slotOf?_slotFor : (r.slotFor key).2.slotOf? k =
    if normalize key = normalize k then some (r.slotFor key).1 else r.slotOf? k := by
  rcases h : r.slotOf? key with _ | slot <;> simp only [slotFor, h]
  · have hfind : r.keys.find? (·.1 = normalize key) = none := Option.map_eq_none_iff.mp h
    by_cases hk : normalize key = normalize k
    · rw [if_pos hk, ← slotOf?_normalize hk, slotOf?, List.find?_append, hfind]
      simp
    · rw [if_neg hk, slotOf?, List.find?_append, slotOf?]
      simp [hk]
  · split
    · rename_i hk
      rw [← slotOf?_normalize hk, h]
    · rfl

theorem read_slotFor : (r.slotFor key).2.read s = r.read s := by
  rcases h : r.slotOf? key with _ | slot <;> simp only [slotFor, h]
  -- a new slot is as empty as one that was never made
  rw [read, List.getElem?_append, read]
  split
  · rfl
  · rename_i hs
    rw [List.getElem?_eq_none (Nat.le_of_not_lt hs), List.getElem?_singleton]
    split <;> rfl

theorem write_null (h : (r.read slot).isNull = true) : r.write slot .null = r := by
  have hslots : r.slots.modify slot ({ · with value := Value.null }) = r.slots := by
    refine List.ext_getElem? fun n => ?_
    rw [List.getElem?_modify]
    split
    · subst slot
      rcases hn : r.slots[n]? with _ | ⟨id, _ | _⟩ <;> simp_all [read, Value.isNull]
    · simp
  rw [write, hslots]

/-- Filling a slot asks for what is offered only if the slot is empty, and then once. -/
theorem fill_offer (r : ExportRegistry) (slot : Nat) (o : ExportOffer) :
    ExportRun.fill { registry := r } slot o.source =
      if (r.read slot).isNull then
        (o.made.map fun _ => (),
          ⟨o.made.toOption.elim r (r.write slot), if o.factory.isSome then 1 else 0⟩)
      else (.ok (), { registry := r }) := by
  unfold ExportRun.fill
  refine if_congr Iff.rfl ?_ rfl
  rcases o with ⟨default, _ | factory⟩
  · rfl
  · dsimp only [ExportOffer.source, ExportSource.ask, ExportOffer.made, Option.elim]
    rcases factory.result 0 with e | v <;> rfl

theorem keys_fill {o : ExportOffer} :
    (ExportRun.fill { registry := r } slot o.source).2.registry.keys = r.keys := by
  rw [fill_offer]
  split
  · cases o.made <;> rfl
  · rfl

theorem length_fill {o : ExportOffer} :
    (ExportRun.fill { registry := r } slot o.source).2.registry.slots.length = r.slots.length := by
  rw [fill_offer]
  split
  · cases o.made
    · rfl
    · exact length_write
  · rfl

/-! ### Registries that calls can make -/

/-- Whether each lower-case text stands once and has a slot of its own that was made. -/
structure IsKept (r : ExportRegistry) : Prop where
  once : (r.keys.map (·.1)).Nodup
  apart : r.listed.Nodup
  made : ∀ s ∈ r.listed, s < r.slots.length
  lowered : ∀ entry ∈ r.keys, ∃ key, entry.1 = normalize key

theorem IsKept.slotOf?_eq_some (h : r.IsKept) :
    r.slotOf? key = some s ↔ (normalize key, s) ∈ r.keys := by
  have hfound {entry : String × Nat} (hfind : r.keys.find? (·.1 = normalize key) = some entry) :
      entry.1 = normalize key ∧ entry ∈ r.keys :=
    ⟨by simpa using List.find?_some hfind, List.mem_of_find?_eq_some hfind⟩
  rw [slotOf?, Option.map_eq_some_iff]
  constructor
  · rintro ⟨entry, hfind, rfl⟩
    obtain ⟨htext, hmem⟩ := hfound hfind
    exact htext ▸ hmem
  · intro hmem
    obtain ⟨entry, hfind⟩ := Option.isSome_iff_exists.mp
      (List.find?_isSome (p := (·.1 = normalize key)) |>.mpr ⟨_, hmem, by simp⟩)
    obtain ⟨htext, hentry⟩ := hfound hfind
    exact ⟨entry, hfind, congrArg Prod.snd (List.inj_on_of_nodup_map h.once hentry hmem htext)⟩

theorem IsKept.mem_listed (h : r.IsKept) : s ∈ r.listed ↔ ∃ key, r.slotOf? key = some s := by
  simp only [h.slotOf?_eq_some, listed, List.mem_map]
  constructor
  · rintro ⟨entry, hmem, rfl⟩
    obtain ⟨key, hkey⟩ := h.lowered entry hmem
    exact ⟨key, hkey ▸ hmem⟩
  · rintro ⟨key, hmem⟩
    exact ⟨_, hmem, rfl⟩

theorem IsKept.lt_length (h : r.IsKept) (hs : r.slotOf? key = some s) : s < r.slots.length :=
  h.made s (h.mem_listed.mpr ⟨key, hs⟩)

/-- Two keys lead to one slot exactly if their lower-case texts are one. -/
theorem IsKept.slotOf?_iff (h : r.IsKept) (hs : r.slotOf? key = some s) :
    r.slotOf? k = some s ↔ normalize k = normalize key := by
  refine ⟨fun hk => ?_, fun hk => (slotOf?_normalize hk).trans hs⟩
  exact congrArg Prod.fst
    (List.inj_on_of_nodup_map h.apart (h.slotOf?_eq_some.mp hk) (h.slotOf?_eq_some.mp hs) rfl)

theorem IsKept.of_keys (h : r.IsKept) (hkeys : r'.keys = r.keys)
    (hlength : r'.slots.length = r.slots.length) :
    r'.IsKept where
  once := hkeys ▸ h.once
  apart := by rw [listed, hkeys]; exact h.apart
  made s hs := by rw [hlength]; rw [listed, hkeys] at hs; exact h.made s hs
  lowered := hkeys ▸ h.lowered

theorem IsKept.slotFor (h : r.IsKept) : (r.slotFor key).2.IsKept := by
  rcases hs : r.slotOf? key with _ | slot <;> simp only [ExportRegistry.slotFor, hs]
  · have hnew : ∀ s, (normalize key, s) ∉ r.keys := fun s hmem => by
      rw [h.slotOf?_eq_some.mpr hmem] at hs
      cases hs
    refine ⟨?_, ?_, fun s hmem => ?_, fun entry hmem => ?_⟩
    · rw [List.map_append, List.nodup_append]
      refine ⟨h.once, List.nodup_singleton _, fun text htext new hnew' => ?_⟩
      obtain ⟨entry, hmem, rfl⟩ := List.mem_map.mp htext
      obtain rfl : new = normalize key := List.mem_singleton.mp hnew'
      exact fun heq => hnew entry.2 (heq ▸ hmem)
    · rw [listed, List.map_append, List.nodup_append]
      refine ⟨h.apart, List.nodup_singleton _, fun s hs new hnew' => ?_⟩
      obtain rfl : new = r.slots.length := List.mem_singleton.mp hnew'
      exact Nat.ne_of_lt (h.made s hs)
    · rw [List.length_append, List.length_singleton]
      rw [listed, List.map_append, List.mem_append] at hmem
      rcases hmem with hmem | hmem
      · exact Nat.lt_succ_of_lt (h.made s hmem)
      · obtain rfl : s = r.slots.length := List.mem_singleton.mp hmem
        exact Nat.lt_succ_self _
    · rcases List.mem_append.mp hmem with hmem | hmem
      · exact h.lowered entry hmem
      · obtain rfl := List.mem_singleton.mp hmem
        exact ⟨key, rfl⟩
  · exact h

theorem IsKept.remove (h : r.IsKept) : (r.remove key).IsKept where
  once := h.once.sublist (List.Sublist.map _ List.filter_sublist)
  apart := h.apart.sublist (List.Sublist.map _ List.filter_sublist)
  made s hs := h.made s ((List.Sublist.map _ List.filter_sublist).subset hs)
  lowered entry hmem := h.lowered entry (List.mem_of_mem_filter hmem)

theorem IsKept.slotOf?_remove (h : r.IsKept) :
    (r.remove key).slotOf? k = if normalize key = normalize k then none else r.slotOf? k := by
  have hremoved : (r.remove key).IsKept := h.remove
  refine Option.ext fun s => ?_
  rw [hremoved.slotOf?_eq_some, ExportRegistry.remove, List.mem_filter]
  split
  · rename_i hk
    simp [hk]
  · rename_i hk
    simp [h.slotOf?_eq_some, Ne.symm hk]

/-- The slot of a removed key is found by no key any more. -/
theorem IsKept.slotOf?_remove_ne (h : r.IsKept) (hs : r.slotOf? key = some s) :
    (r.remove key).slotOf? k ≠ some s := by
  rw [h.slotOf?_remove]
  split
  · exact nofun
  · rename_i hk
    exact fun hks => hk ((h.slotOf?_iff hs).mp hks).symm

/-! ### One call -/

/-- A registry with the slot that a call makes. -/
def opened (r : ExportRegistry) (c : ExportCall) : ExportRegistry :=
  match c.opens? with
  | some key => (r.slotFor key).2
  | none => r

theorem slotOf?_opened :
    (r.opened c).slotOf? key = if c.Opens key then c.target? r else r.slotOf? key := by
  rcases hc : c.opens? with _ | k
  · simp [opened, ExportCall.Opens, hc]
  · simp only [opened, ExportCall.Opens, ExportCall.target?, hc, slotOf?_slotFor, slotFor_fst,
      Option.map_some, Option.some.injEq]

theorem read_opened : (r.opened c).read s = r.read s := by
  unfold opened
  split
  · exact read_slotFor
  · rfl

theorem IsKept.opened (h : r.IsKept) : (r.opened c).IsKept := by
  unfold ExportRegistry.opened
  split
  · exact h.slotFor
  · exact h

theorem IsKept.lt_length_opened (h : r.IsKept) : s < (r.opened c).slots.length ↔
    s < r.slots.length ∨ c.opens?.isSome ∧ c.target? r = some s := by
  unfold ExportRegistry.opened ExportCall.target?
  rcases hc : c.opens? with _ | key
  · simp
  · rcases hs : r.slotOf? key with _ | slot
    · simp only [ExportRegistry.slotFor, hs, List.length_append, List.length_singleton,
        Option.getD_none, Option.some.injEq, Option.isSome_some, true_and]
      omega
    · simp only [ExportRegistry.slotFor, hs, Option.getD_some, Option.some.injEq,
        Option.isSome_some, true_and]
      exact (or_iff_left_of_imp fun heq => heq ▸ h.lt_length hs).symm

/-- A null default fills nothing, so that `handle` need not look for it. -/
theorem handle_eq_setIfAbsent (run : ExportRun) (src : ExportSource) :
    run.handle key src = run.setIfAbsent key src := by
  rcases src with (_ | _ | _ | _ | _ | _ | _) | factory <;> try rfl
  change (Except.ok (run.slotFor key).1, (run.slotFor key).2) =
    (run.slotFor key).2.slotSetIfAbsent (run.slotFor key).1 (.given .null)
  generalize run.slotFor key = opened
  unfold ExportRun.slotSetIfAbsent ExportRun.fill
  rcases hnull : (opened.2.registry.read opened.1).isNull with _ | _
  · rfl
  · dsimp only [ExportSource.ask]
    rw [if_pos rfl, write_null hnull]
    rfl

theorem map_map {α β γ : Type} (x : Except Failure α) (f : α → β) (g : β → γ) :
    (x.map f).map g = x.map fun a => g (f a) := by
  cases x <;> rfl

/-- A call with something to fill an empty slot with makes its slot, and fills it. -/
theorem perform_offer {o : ExportOffer} (ho : c.offer? = some o) (ht : c.target? r = some s) :
    let filled := ExportRun.fill { registry := r.opened c } s o.source
    (r.perform c).2 = filled.2.registry ∧
    (r.perform c).1.factoryCalls = filled.2.factoryCalls ∧
    (r.perform c).1.answer = filled.1.map fun _ => if c.reads then .value ((r.perform c).2.read s)
      else .slot s := by
  cases c <;> cases ho <;> cases ht
  case handle key =>
    rw [perform, handle_eq_setIfAbsent]
    simp only [replied, ExportRun.setIfAbsent, ExportRun.slotFor, ExportRun.slotSetIfAbsent, opened,
      ExportCall.opens?, ← slotFor_fst, map_map]
    exact ⟨trivial, trivial, rfl⟩
  case setIfAbsent key =>
    simp only [perform, replied, ExportRun.setIfAbsent, ExportRun.slotFor,
      ExportRun.slotSetIfAbsent, opened, ExportCall.opens?, ← slotFor_fst, map_map]
    exact ⟨trivial, trivial, rfl⟩
  case get key =>
    simp only [perform, replied, ExportRun.get, ExportRun.slotFor, ExportRun.slotGet, opened,
      ExportCall.opens?, ← slotFor_fst, map_map]
    exact ⟨trivial, trivial, rfl⟩
  case slotGet =>
    simp only [perform, replied, ExportRun.slotGet, opened, ExportCall.opens?, map_map]
    exact ⟨trivial, trivial, rfl⟩
  case slotSetIfAbsent =>
    simp only [perform, replied, ExportRun.slotSetIfAbsent, opened, ExportCall.opens?, map_map]
    exact ⟨trivial, trivial, rfl⟩

theorem perform_sets (hv : c.sets? = some v) (ht : c.target? r = some s) :
    r.perform c = (⟨.ok (.slot s), 0⟩, (r.opened c).write s v) := by
  cases c <;> cases hv <;> cases ht
  case set key => simp only [perform, set, opened, ExportCall.opens?, ← slotFor_fst]
  case slotSet => rfl

theorem has_iff : r.has key = true ↔ r.Holds key := by
  unfold has Holds
  rcases r.slotOf? key with _ | slot <;> simp

theorem puts_offer {o : ExportOffer} (ho : c.offer? = some o) :
    c.puts v = if v.isNull then o.made else .ok v := by
  cases c <;> cases ho <;> rfl

theorem callsFactory_offer {o : ExportOffer} (ho : c.offer? = some o) :
    c.callsFactory v = (v.isNull && o.factory.isSome) := by
  rw [ExportCall.callsFactory, ho, Option.any_some]

theorem puts_sets {w : Value} (hv : c.sets? = some w) : c.puts v = .ok w := by
  cases c <;> cases hv <;> rfl

/-- A call with a slot sets or fills it. -/
theorem sets_or_offers (ht : c.target? r = some s) :
    (∃ v, c.sets? = some v) ∨ ∃ o, c.offer? = some o := by
  cases c <;> cases ht <;> first | exact .inl ⟨_, rfl⟩ | exact .inr ⟨_, rfl⟩

/-- A call without a slot asks about a key, or takes its slot away. -/
theorem target?_eq_none (ht : c.target? r = none) :
    (∃ key, c = .has key) ∨ (∃ x, c = .contains x) ∨ ∃ key, c = .remove key := by
  cases c <;> cases ht
  · exact .inl ⟨_, rfl⟩
  · exact .inr (.inl ⟨_, rfl⟩)
  · exact .inr (.inr ⟨_, rfl⟩)

/-- Only a release takes a slot away, and it does nothing else. -/
theorem not_removes (ht : c.target? r = some s) : ¬c.Removes key := by
  rintro ⟨k, rfl, -⟩
  cases ht

/-- Filling a slot raises what there is to raise, and puts into it what the call puts. -/
theorem fill_fst {o : ExportOffer} (ho : c.offer? = some o) :
    (ExportRun.fill { registry := r } s o.source).1 = (c.puts (r.read s)).map fun _ => () := by
  rw [puts_offer ho, fill_offer]
  split <;> rfl

theorem read_fill {o : ExportOffer} (ho : c.offer? = some o) {n : Nat} (hn : n < r.slots.length) :
    (ExportRun.fill { registry := r } s o.source).2.registry.read n =
      if s = n then (c.puts (r.read n)).toOption.getD (r.read n) else r.read n := by
  rw [puts_offer ho, fill_offer]
  by_cases hs : s = n
  · subst s
    rw [if_pos rfl]
    split
    · cases o.made
      · rfl
      · exact (read_write hn).trans (if_pos rfl)
    · rfl
  · rw [if_neg hs]
    split
    · cases o.made
      · rfl
      · exact (read_write hn).trans (if_neg hs)
    · rfl

/-- A factory is called if there is one and the slot is empty, and then once. -/
theorem fill_factoryCalls {o : ExportOffer} (ho : c.offer? = some o) :
    (ExportRun.fill { registry := r } s o.source).2.factoryCalls =
      if c.callsFactory (r.read s) then 1 else 0 := by
  rw [callsFactory_offer ho, fill_offer]
  cases (r.read s).isNull <;> rfl

theorem IsKept.abides_offer (h : r.IsKept) {o : ExportOffer} (ho : c.offer? = some o)
    (ht : c.target? r = some s) :
    r.Abides c (r.perform c).1 (r.perform c).2 := by
  obtain ⟨hr, hcalls, hanswer⟩ := perform_offer (r := r) ho ht
  refine ⟨fun key => ?_, fun n => ?_, fun n hn => ?_, fun n hn => ?_, ?_, ?_, ?_⟩
  · rw [hr, slotOf?_congr keys_fill, slotOf?_opened, if_neg (not_removes ht)]
  · rw [hr, length_fill, h.lt_length_opened]
  · rw [hr, length_fill] at hn
    rw [hr, ht, read_fill ho hn, read_opened]
    exact if_congr (Option.some.injEq s n).to_iff.symm rfl rfl
  · obtain rfl : s = n := Option.some.inj (ht.symm.trans hn)
    rw [hanswer, fill_fst ho, map_map, read_opened]
  · rintro key (rfl | rfl) <;> cases ho
  · rintro x rfl
    cases ho
  · rw [hcalls, fill_factoryCalls ho, read_opened, ht, Option.any_some]

theorem IsKept.abides_sets (h : r.IsKept) (hv : c.sets? = some v) (ht : c.target? r = some s) :
    r.Abides c (r.perform c).1 (r.perform c).2 := by
  rw [perform_sets hv ht]
  refine ⟨fun key => ?_, fun n => ?_, fun n hn => ?_, fun n hn => ?_, ?_, ?_, ?_⟩
  · rw [slotOf?_congr keys_write, slotOf?_opened, if_neg (not_removes ht)]
  · rw [length_write, h.lt_length_opened]
  · rw [length_write] at hn
    rw [read_write hn, ht, puts_sets hv, read_opened]
    exact if_congr (Option.some.injEq s n).to_iff.symm rfl rfl
  · obtain rfl : s = n := Option.some.inj (ht.symm.trans hn)
    rw [puts_sets hv]
    cases c <;> cases hv <;> rfl
  · rintro key (rfl | rfl) <;> cases hv
  · rintro x rfl
    cases hv
  · rw [ht]
    cases c <;> cases hv <;> simp [ExportCall.callsFactory, ExportCall.offer?]

theorem removes_remove : (ExportCall.remove k).Removes key ↔ normalize k = normalize key := by
  simp [ExportCall.Removes]

theorem IsKept.abides_other (h : r.IsKept) (ht : c.target? r = none) :
    r.Abides c (r.perform c).1 (r.perform c).2 := by
  have hopen : c.opens? = none := by
    rcases ho : c.opens? with _ | key
    · rfl
    · rw [ExportCall.target?, ho] at ht
      cases ht
  have hopens (key : String) : ¬c.Opens key := by simp [ExportCall.Opens, hopen]
  have hslots : (r.perform c).2.slots = r.slots := by cases c <;> cases ht <;> rfl
  refine ⟨fun key => ?_, fun n => ?_, fun n hn => ?_, fun n hn => ?_, ?_, ?_, ?_⟩
  · rw [if_neg (hopens key)]
    obtain ⟨k, rfl⟩ | ⟨x, rfl⟩ | ⟨k, rfl⟩ := target?_eq_none ht
    · exact (if_neg fun ⟨_, hc, _⟩ => by cases hc).symm
    · exact (if_neg fun ⟨_, hc, _⟩ => by cases hc).symm
    · exact h.slotOf?_remove.trans (if_congr removes_remove.symm rfl rfl)
  · simp [hslots, hopen]
  · rw [read, hslots, ht]
    rfl
  · rw [ht] at hn
    cases hn
  · rintro key (rfl | rfl)
    · exact ⟨_, rfl, has_iff⟩
    · exact ⟨_, rfl, has_iff⟩
  · rintro x rfl hx
    cases x with
    | text key => exact absurd rfl (hx key)
    | _ => rfl
  · rw [ht]
    cases c <;> cases ht <;> rfl

/-- What one call does. -/
theorem IsKept.abides (h : r.IsKept) (c : ExportCall) :
    r.Abides c (r.perform c).1 (r.perform c).2 := by
  rcases ht : c.target? r with _ | s
  · exact h.abides_other ht
  · obtain ⟨v, hv⟩ | ⟨o, ho⟩ := sets_or_offers ht
    · exact h.abides_sets hv ht
    · exact h.abides_offer ho ht

theorem IsKept.perform (h : r.IsKept) (c : ExportCall) : (r.perform c).2.IsKept := by
  rcases ht : c.target? r with _ | s
  · obtain ⟨k, rfl⟩ | ⟨x, rfl⟩ | ⟨k, rfl⟩ := target?_eq_none ht
    · exact h
    · exact h
    · exact h.remove
  · obtain ⟨v, hv⟩ | ⟨o, ho⟩ := sets_or_offers ht
    · rw [perform_sets hv ht]
      exact h.opened.of_keys keys_write length_write
    · rw [(perform_offer ho ht).1]
      exact h.opened.of_keys keys_fill length_fill

/-! ### Any calls -/

variable {reply : ExportReply} {calls later : List ExportCall}

/-- A call that makes the slot of a key goes to the slot that the key leads to. -/
theorem target?_of_opens (h : c.Opens key) :
    c.target? r = some ((r.slotOf? key).getD r.slots.length) := by
  obtain ⟨k, hk, htext⟩ := Option.map_eq_some_iff.mp h
  rw [ExportCall.target?, hk, ← slotOf?_normalize htext]

theorem Abides.keeps (h : r.Abides c reply r') (hs : r.slotOf? key = some s) (hc : ¬c.Removes key) :
    r'.slotOf? key = some s := by
  rw [h.leads, if_neg hc]
  split
  · rename_i hopen
    rw [target?_of_opens hopen, hs]
    rfl
  · exact hs

/-- Whether a registry comes from another in that all slots are still there, and no key was led
to one of them since. -/
structure Grows (r r' : ExportRegistry) : Prop where
  there : ∀ s < r.slots.length, s < r'.slots.length
  led : ∀ s < r.slots.length, ∀ key, r'.slotOf? key = some s → r.slotOf? key = some s

/-- A call to a slot that was there before is one to that slot from the start. -/
theorem Grows.target? (h : r.Grows r') (hs : s < r.slots.length) (ht : c.target? r' = some s) :
    c.target? r = some s := by
  unfold ExportCall.target? at ht ⊢
  split at ht
  · rename_i key hkey
    rcases hslot : r'.slotOf? key with _ | slot
    · -- a slot that is only made now was not there before
      rw [hslot, Option.getD_none, Option.some.injEq] at ht
      exact absurd (h.there s hs) (by omega)
    · rw [hslot, Option.getD_some, Option.some.injEq] at ht
      rw [h.led s hs key (ht ▸ hslot)]
      rfl
  · exact ht

theorem Abides.grows (h : r.Abides c reply r') : r.Grows r' where
  there s hs := (h.made s).mpr (.inl hs)
  led s hs key hkey := by
    rw [h.leads] at hkey
    split at hkey
    · cases hkey
    · split at hkey
      · rename_i hopen
        rw [target?_of_opens hopen] at hkey
        rcases hslot : r.slotOf? key with _ | slot
        · rw [hslot, Option.getD_none, Option.some.injEq] at hkey
          omega
        · rwa [hslot, Option.getD_some] at hkey
      · exact hkey

theorem Grows.trans {r'' : ExportRegistry} (h : r.Grows r') (h' : r'.Grows r'') : r.Grows r'' where
  there s hs := h'.there s (h.there s hs)
  led s hs key hkey := h.led s hs key (h'.led s (h.there s hs) key hkey)

theorem isKept_empty : ({} : ExportRegistry).IsKept :=
  ⟨List.nodup_nil, List.nodup_nil, fun _ hs => absurd hs List.not_mem_nil, fun _ he =>
    absurd he List.not_mem_nil⟩

theorem after_append (calls later : List ExportCall) :
    after (calls ++ later) = later.foldl (fun r c => (r.perform c).2) (after calls) :=
  List.foldl_append

theorem isKept_after (calls : List ExportCall) : (after calls).IsKept := by
  induction calls using List.reverseRecOn with
  | nil => exact isKept_empty
  | append_singleton before c ih =>
    rw [after_append]
    exact ih.perform c

/-- What holds after some calls and stays with each later one holds after these. -/
theorem after_later {P : ExportRegistry → Prop} (start : P (after calls))
    (step : ∀ r, r.IsKept → (after calls).Grows r → P r → ∀ c ∈ later, P (r.perform c).2) :
    (after calls).Grows (after (calls ++ later)) ∧ P (after (calls ++ later)) := by
  induction later using List.reverseRecOn with
  | nil =>
    rw [List.append_nil]
    exact ⟨⟨fun _ hs => hs, fun _ _ _ hkey => hkey⟩, start⟩
  | append_singleton before c ih =>
    obtain ⟨hg, hP⟩ := ih fun r hr hg hP c hc => step r hr hg hP c (List.mem_append_left _ hc)
    have hr := isKept_after (calls ++ before)
    rw [← List.append_assoc, after_append]
    exact ⟨hg.trans (hr.abides c).grows,
      step _ hr hg hP c (List.mem_append_right _ (List.mem_singleton_self c))⟩

theorem grows_after (calls later : List ExportCall) :
    (after calls).Grows (after (calls ++ later)) :=
  (after_later (P := fun _ => True) trivial fun _ _ _ _ _ _ => trivial).1

/-- A key leads to its slot until it is removed. -/
theorem slotOf?_after (hs : (after calls).slotOf? key = some s) (hc : ∀ c ∈ later, ¬c.Removes key) :
    (after (calls ++ later)).slotOf? key = some s :=
  (after_later (P := fun r => r.slotOf? key = some s) hs fun _ hr _ hs c hmem =>
    (hr.abides c).keeps hs (hc c hmem)).2

/-- A slot that no key leads to is found by no key again. -/
theorem detached_after (hs : s < (after calls).slots.length)
    (hfree : ∀ key, (after calls).slotOf? key ≠ some s) (later : List ExportCall) (key : String) :
    (after (calls ++ later)).slotOf? key ≠ some s := by
  intro hkey
  exact hfree key ((grows_after calls later).led s hs key hkey)

/-- A slot holds what it held until a call sets it, and one that is empty until a call fills it. -/
theorem read_after (hs : s < (after calls).slots.length)
    (hc : ∀ c ∈ later, c.target? (after calls) = some s →
      c.sets? = none ∧ ((after calls).read s).isNull = false) :
    (after (calls ++ later)).read s = (after calls).read s := by
  refine (after_later (P := fun r => r.read s = (after calls).read s)
    rfl fun r hr hg hread c hmem => ?_).2
  rw [(hr.abides c).holds s ((hr.abides c).grows.there s (hg.there s hs)), hread]
  split
  · rename_i ht
    obtain ⟨hsets, hheld⟩ := hc c hmem (hg.target? hs ht)
    obtain ⟨o, ho⟩ := (sets_or_offers ht).resolve_left fun ⟨v, hv⟩ => by rw [hsets] at hv; cases hv
    rw [puts_offer ho, hheld]
    rfl
  · rfl

/-- After any calls, those that raised included: each further call does to its slot or key what it
should and nothing to any other; keys lead to one slot exactly if their lower-case texts are one,
and there are as many slots listed as counted. Whatever is called later, a key leads to its slot
until it is removed, a slot that no key leads to is found by none again, and a slot that holds a
value holds it until a call through the slot itself or a key that led to it sets another. -/
theorem shares_slots (calls : List ExportCall) :
    let r := after calls
    (∀ c, r.Abides c (r.perform c).1 (r.perform c).2) ∧
    (∀ key k s, r.slotOf? key = some s → (r.slotOf? k = some s ↔ Text.lower k = Text.lower key)) ∧
    (∀ key s, r.slotOf? key = some s → ∀ k, (r.perform (.remove key)).2.slotOf? k ≠ some s) ∧
    (r.listed.Nodup ∧ r.size = r.listed.length ∧ ∀ s, s ∈ r.listed ↔
      ∃ key, r.slotOf? key = some s) ∧
    ∀ later, let r' := after (calls ++ later)
      (∀ key s, r.slotOf? key = some s → (∀ c ∈ later, ¬c.Removes key) → r'.slotOf? key = some s) ∧
      ∀ s < r.slots.length,
        ((∀ key, r.slotOf? key ≠ some s) → ∀ key, r'.slotOf? key ≠ some s) ∧
        ((∀ c ∈ later, c.target? r = some s → c.sets? = none ∧ (r.read s).isNull = false) →
          r'.read s = r.read s) := by
  have hr := isKept_after calls
  refine ⟨hr.abides, fun key k s hs => hr.slotOf?_iff hs, fun key s hs k => hr.slotOf?_remove_ne hs,
    ⟨hr.apart, ?_, fun s => hr.mem_listed⟩, fun later => ?_⟩
  · rw [size, listed, List.length_map]
  · exact ⟨fun key s hs hc => slotOf?_after hs hc,
      fun s hs => ⟨fun hfree => detached_after hs hfree later, fun hc => read_after hs hc⟩⟩

/-- Makes a counter that stands at zero. -/
def counting : List ExportCall := [.set "Counter" (.int 0)]

/-- Asks for the counter by another spelling. -/
def lookup : ExportCall := .get "COUNTER" { factory := some (.ok (.int 3)) }

/-- Zero is a value: it is read through another spelling, and no factory is called for it. -/
theorem shares_slots_counting :
    ((after counting).perform lookup).1.answer = .ok (.value (.int 0)) ∧
    ((after counting).perform lookup).1.factoryCalls = 0 := by
  have habides := (shares_slots counting).1 lookup
  have ht : lookup.target? (after counting) = some 0 := by decide
  have hread := habides.holds 0 (by decide)
  rw [if_pos ht] at hread
  constructor
  · rw [habides.answers 0 ht, hread]
    rfl
  · rw [habides.calls, ht]
    rfl

end ExportRegistry

end HotReload
