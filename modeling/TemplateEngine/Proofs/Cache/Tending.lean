import TemplateEngine.Proofs.Cache.Reading

-- What the operations of a cache leave as it was: all places that are not its own, and the way to its
-- directory.
namespace TemplateEngine.Cache

variable {c : Cache} {h h' h'' : Host} {k : Key} {m : Metadata} {i : Index} {code text : String}

-- Nothing changed but places of a cache, and its directory is there.
structure Tends (c : Cache) (h h' : Host) : Prop where
  ready : c.Ready h'
  same : h.SameBut (c.Owns h.cwd) h'
  clock : h'.clock = h.clock

theorem Ready.tends_refl (hr : c.Ready h) : c.Tends h h := ⟨hr, .refl _ h, rfl⟩

theorem Tends.trans (ht : c.Tends h h') (ht' : c.Tends h' h'') : c.Tends h h'' :=
  ⟨ht'.ready, ht.same.trans (ht.same.cwd ▸ ht'.same), ht'.clock.trans ht.clock⟩

theorem Removed.tends (hr : c.Removed k h h') : c.Tends h h' := by
  refine ⟨hr.ready, ⟨hr.cwd, fun l hl => ?_⟩, hr.clock⟩
  rw [hr.entries, if_neg]
  rintro (rfl | rfl)
  · exact hl (owns_code k)
  · exact hl (owns_meta k)

theorem Removed.lookup (hr : c.Removed k h h') (hk : k.Plain) : c.lookup h' k = .missing := by
  refine lookup_missing hr.ready.valid hk ?_
  rw [hr.cwd, hr.entries, if_pos (.inr rfl)]

theorem Stored.tends (hs : c.Stored k code m i h h') : c.Tends h h' := by
  refine ⟨hs.ready, ⟨hs.cwd, fun l hl => hs.others l ?_ ?_ ?_ ?_⟩, hs.clock⟩
  · rintro rfl
    exact hl (owns_code k)
  · rintro rfl
    exact hl (owns_meta k)
  · rintro rfl
    exact hl (owns_index i.source)
  · rintro rfl
    exact hl owns_indexHome

theorem Wrote.tends_index {source : Path} (hw : c.Wrote (c.indexPlace h.cwd source) text h h') :
    c.Tends h h' := by
  refine ⟨hw.ready, ⟨hw.cwd, fun l hl => hw.others l ?_ ?_⟩, hw.clock⟩
  · rintro rfl
    exact hl (owns_index source)
  · rintro rfl
    exact hl owns_indexHome

theorem Ready.wroteIndex (hr : c.Ready h) (hrun : (c.writeIndex i).run h = (.ok (), h')) :
    c.Tends h h' ∧ c.Indexed i h' := by
  obtain ⟨husable, hsize, hw⟩ := hr.wrote_index hrun
  exact ⟨hw.tends_index, husable, hsize, _, hw.cwd ▸ hw.file⟩

end TemplateEngine.Cache
