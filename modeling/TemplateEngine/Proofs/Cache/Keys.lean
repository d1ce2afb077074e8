import TemplateEngine.Proofs.Cache.Material

-- When keys are the same. A key stands for a salt, for paths in their order, and for the time of each
-- file, but no time before 1970 is told from another one, nor from the start of 1970.
namespace TemplateEngine

namespace Instant

def epoch : Instant := ⟨0, 0⟩

-- Whether keys take two times for one.
def Alike (t t' : Instant) : Prop := t = t' ∨ t.atMost epoch = true ∧ t'.atMost epoch = true

instance (t t' : Instant) : Decidable (Alike t t') := inferInstanceAs (Decidable (_ ∨ _))

variable {t t' : Instant}

theorem atMost_epoch_iff : t.atMost epoch = true ↔ t.seconds < 0 ∨ t.seconds = 0 ∧ t.nanos = 0 := by
  unfold atMost before epoch
  simp only [Bool.not_eq_true', Bool.or_eq_false_iff, Bool.and_eq_false_iff, decide_eq_false_iff_not,
    beq_eq_false_iff_ne]
  omega

theorem sinceEpoch_eq_iff (ht : t.nanos < 1000000000) (ht' : t'.nanos < 1000000000) :
    t.sinceEpoch = t'.sinceEpoch ↔ t.Alike t' := by
  obtain ⟨seconds, nanos⟩ := t
  obtain ⟨seconds', nanos'⟩ := t'
  unfold Alike
  rw [atMost_epoch_iff, atMost_epoch_iff, Instant.mk.injEq]
  unfold sinceEpoch
  dsimp only at ht ht' ⊢
  split <;> split <;> omega

end Instant

namespace Cache

variable {h h' : Host} {salt salt' : String} {files files' : List Stamped} {ps : List Path} {p : Path}

-- A salt is a line of its own.
theorem salt_eq_of_material_eq (hsalt : '\n' ∉ salt.toList) (hsalt' : '\n' ∉ salt'.toList)
    (hm : Key.material salt files = Key.material salt' files') : salt = salt' := by
  have htext : ∀ (s : String) (fs : List Stamped), (Key.material s fs).toList =
      s.toList ++ '\n' :: (String.join (fs.map Stamped.material)).toList := by
    intro s fs
    simp [Key.material]
  have hlists := congrArg String.toList hm
  rw [htext, htext] at hlists
  exact String.toList_inj.mp (append_cons_inj hsalt hsalt' hlists).1

-- Whether a file is there in two hosts, at times that keys take for one.
def SameTime (h h' : Host) (p : Path) : Prop :=
  ∃ t t', h.changed p = .ok t ∧ h'.changed p = .ok t' ∧ t.Alike t'

-- Whether the times of files are no leap seconds.
def Timed (h : Host) (ps : List Path) : Prop :=
  ∀ p ∈ ps, ∀ t, h.changed p = .ok t → t.nanos < 1000000000

theorem sameTime_iff (ht : Timed h ps) (ht' : Timed h' ps) (hp : p ∈ ps) :
    SameTime h h' p ↔ ∃ t t', h.changed p = .ok t ∧ h'.changed p = .ok t' ∧ t.sinceEpoch = t'.sinceEpoch := by
  refine exists_congr fun t => exists_congr fun t' => and_congr_right fun hc => and_congr_right fun hc' => ?_
  exact (Instant.sinceEpoch_eq_iff (ht p hp t hc) (ht' p hp t' hc')).symm

-- What a file adds to a material.
def lineOf (h : Host) (p : Path) : String :=
  Stamped.material ⟨p, (h.changed p).toOption.getD .epoch⟩

theorem map_material (hf : ps.mapM (stamped h) = .ok files) :
    files.map Stamped.material = ps.map (lineOf h) := by
  obtain ⟨hpaths, hchanged⟩ := mapM_stamped_eq_ok hf
  rw [← hpaths, List.map_map]
  refine List.map_congr_left fun s hs => ?_
  unfold lineOf
  dsimp only [Function.comp_apply]
  rw [hchanged s hs]
  rfl

theorem lineOf_eq {t t' : Instant} (hc : h.changed p = .ok t) (hc' : h'.changed p = .ok t')
    (htime : t.sinceEpoch = t'.sinceEpoch) : lineOf h p = lineOf h' p := by
  unfold lineOf
  rw [hc, hc']
  change Stamped.material ⟨p, t⟩ = Stamped.material ⟨p, t'⟩
  unfold Stamped.material
  rw [htime]

-- A host with one file, which was last changed at some time.
def dated (changed : Instant) : Host where
  tree := ⟨[(["p"], .file "".toUTF8 changed)]⟩
  cwd := []
  clock := ⟨9, 0⟩
  cacheHome := none

theorem dated_changed (changed : Instant) : (dated changed).changed ⟨"p"⟩ = .ok changed := rfl

theorem dated_stamped (changed : Instant) :
    [(⟨"p"⟩ : Path)].mapM (stamped (dated changed)) = .ok [⟨⟨"p"⟩, changed⟩] := rfl

theorem dated_keyOf (changed : Instant) :
    keyOf (dated changed) ⟨"p"⟩ [] "" = .ok (.ofFiles "" [⟨⟨"p"⟩, changed⟩]) := rfl

theorem dated_timed {changed : Instant} (hc : changed.nanos < 1000000000) :
    Timed (dated changed) [⟨"p"⟩] := by
  intro p hp t ht
  rw [List.mem_singleton.mp hp, dated_changed] at ht
  exact Except.ok.inj ht ▸ hc

end Cache

end TemplateEngine
