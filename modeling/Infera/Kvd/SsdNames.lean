import Infera.Kvd.Ssd

/-! File names of the SSD regions. A composite whose model and compat key have
no bar in them is read back from its encoded text, so it has files of its own;
without the mark of temporary files in them the startup scan takes its two
files for what they are. -/

namespace Infera.Kvd
open UrlQuote List
variable {c c' : Composite}

theorem splitBar_append {text : List Char} (clear : '|' ∉ text) (rest : List Char) :
    splitBar (text ++ '|' :: rest) = some (text, rest) := by
  induction text with
  | nil => rfl
  | cons c text ih =>
    rw [mem_cons, not_or] at clear
    rw [cons_append, splitBar, if_neg (Ne.symm clear.1), ih clear.2]
    rfl

structure Barless (c : Composite) : Prop where
  model : '|' ∉ c.model.toList
  compatKey : '|' ∉ c.compatKey.toList

structure Plain (c : Composite) : Prop extends Barless c where
  modelMark : ¬tmpMark <:+: c.model.toList
  compatKeyMark : ¬tmpMark <:+: c.compatKey.toList

theorem decodeComposite_encodeComposite (model : '|' ∉ c.model.toList)
    (compatKey : '|' ∉ c.compatKey.toList) : decodeComposite (encodeComposite c) = some c := by
  simp [decodeComposite, encodeComposite, splitBar_append model, splitBar_append compatKey, Base64.decode_encode]

theorem append_metadataExt_ne (stem stem' : List Char) : stem ++ metadataExt ≠ stem' ++ dataExt := by
  intro same
  have last := congrArg List.getLast? same
  rw [List.getLast?_append_of_ne_nil _ (by decide), List.getLast?_append_of_ne_nil _ (by decide)] at last
  exact absurd last (by decide)

theorem dataName_ne_metadataName (c c' : Composite) : dataName c ≠ metadataName c' :=
  (append_metadataExt_ne _ _).symm

theorem take_stem (stem ext : List Char) :
    (stem ++ ext).take ((stem ++ ext).length - ext.length) = stem := by
  rw [length_append, Nat.add_sub_cancel, take_left]

section
variable (barless : Barless c) (barless' : Barless c')
include barless barless'

theorem encodeComposite_inj (same : encodeComposite c = encodeComposite c') : c = c' := by
  have both := congrArg decodeComposite same
  rw [decodeComposite_encodeComposite barless.model barless.compatKey,
    decodeComposite_encodeComposite barless'.model barless'.compatKey] at both
  exact Option.some.inj both

theorem filenameForComposite_inj
    (same : filenameForComposite c = filenameForComposite c') : c = c' :=
  encodeComposite_inj barless barless' (quote_injective same)

theorem dataName_inj (same : dataName c = dataName c') : c = c' :=
  filenameForComposite_inj barless barless' (append_cancel_right same)

theorem metadataName_inj (same : metadataName c = metadataName c') : c = c' :=
  filenameForComposite_inj barless barless' (append_cancel_right same)

end

section
variable (plain : Plain c)
include plain

theorem no_mark_in_encoded {ext : List Char}
    (clear : ¬tmpMark <:+: ext) : ¬tmpMark <:+: encodeComposite c ++ ext := by
  intro occurs
  rw [encodeComposite, append_assoc, cons_append, append_assoc] at occurs
  rcases infix_append_cons (by decide) occurs with inModel | later
  · exact plain.modelMark inModel
  rcases infix_append_cons (by decide) later with inCompat | inKey
  · exact plain.compatKeyMark inCompat
  · -- the mark starts with a dot, which base64 never writes
    have noDot : '.' ∉ Base64.encode c.key := fun mem =>
      Base64.forall_mem_encode (P := fun d => d ≠ '.') (by decide) mem rfl
    exact clear (infix_of_infix_append noDot inKey)

theorem no_mark_in_name {ext : List Char}
    (unreserved : ∀ d ∈ ext, unreserved d = true) (clear : ¬tmpMark <:+: ext) :
    ¬tmpMark <:+: filenameForComposite c ++ ext := by
  intro occurs
  rw [filenameForComposite, ← quote_of_unreserved unreserved, ← quote_append] at occurs
  have apart : ∀ e ∈ escapeChars, e ∉ tmpMark := by
    have each : escapeChars.all (fun e => e ∉ tmpMark) = true := by decide
    simpa using each
  exact no_mark_in_encoded plain clear (infix_of_infix_quote apart occurs)

theorem classify_metadataName : classify (metadataName c) = .sidecar (filenameForComposite c) := by
  have unmarked : ¬tmpMark <:+: metadataName c :=
    no_mark_in_name plain (all_eq_true.mp (by decide)) (by decide)
  rw [classify, if_neg unmarked, metadataName, if_pos (suffix_append _ _), take_stem]

theorem classify_dataName : classify (dataName c) = .data (filenameForComposite c) := by
  have unmarked : ¬tmpMark <:+: dataName c :=
    no_mark_in_name plain (all_eq_true.mp (by decide)) (by decide)
  have notSidecar : ¬metadataExt <:+ dataName c := by
    rintro ⟨stem, same⟩
    exact append_metadataExt_ne _ _ same
  rw [classify, if_neg unmarked, if_neg notSidecar, dataName, if_pos (suffix_append _ _), take_stem]

end

theorem scanned_shardOf (c : Composite) : (shardOf c).scanned = true := by
  have long : (compositeHash c).length = 64 := Sha256.length_hexdigest _
  have hex : ∀ d ∈ compositeHash c, Sha256.isLowerHex d = true := fun _ =>
    Sha256.isLowerHex_of_mem_hexdigest
  simp only [Shard.scanned, shardOf, length_take, length_drop, long, Nat.reduceSub,
    Nat.reduceLeDiff, Nat.min_eq_left, decide_true, Bool.true_and, Bool.and_eq_true,
    all_eq_true]
  exact ⟨fun d mem => hex d (mem_of_mem_take mem),
    fun d mem => hex d (mem_of_mem_drop (mem_of_mem_take mem))⟩

end Infera.Kvd
