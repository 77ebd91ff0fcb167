import SlashWho.Fallible
import SlashWho.Transitions
import SlashWho.CursorWalk
import SlashWho.Characters
import SlashWho.OrderedMap
import SlashWho.EvidenceMerge
import SlashWho.EvidenceStore
import SlashWho.StoredParses
import SlashWho.HistoryScan
import SlashWho.KillScanFloor
import SlashWho.RollingBudget
import SlashWho.Runs
import SlashWho.FingerprintSweeps
import SlashWho.FingerprintChanges
import SlashWho.FingerprintBudget
import SlashWho.FingerprintDelivery
import SlashWho.FingerprintFence
import SlashWho.CharacterConnections
import SlashWho.ObservationWrites
import SlashWho.ObservationAudit
import SlashWho.ObservationReplay
import SlashWho.FingerprintChain
import SlashWho.FingerprintDiscovery
import SlashWho.FingerprintLoop
import SlashWho.FingerprintSerial
import SlashWho.FingerprintConcurrency
import SlashWho.FingerprintSettleOrder
import SlashWho.FingerprintCycles
import SlashWho.FingerprintResume
import SlashWho.FingerprintComposition
import SlashWho.FingerprintLookAhead
import SlashWho.FingerprintOvertaken
import SlashWho.EvidencePublishes
import SlashWho.RepublishedEvidence
import SlashWho.RaiderIoFirstKills
import SlashWho.HistoryRecovery
import SlashWho.FirstKillCollection
import SlashWho.AttendanceSearched
import SlashWho.GallopSearch
import SlashWho.TierSearch
import SlashWho.JsonNarrowing
import SlashWho.ReportDecoding
import SlashWho.ReportWipes
import SlashWho.HistoryPageRead
import SlashWho.EvidenceRetryPolicy
import SlashWho.SharedStore
import SlashWho.SnapshotTables
import SlashWho.SnapshotMembers
import SlashWho.CharacterDiscovery
import SlashWho.DiscoveryPasses
import SlashWho.DiscoveryBudget
import SlashWho.DiscoveryTournaments
import SlashWho.DiscoveryChain
import SlashWho.DiscoveryClosure
import SlashWho.EvidenceRuns
import SlashWho.EvidencePhases
import SlashWho.EvidencePhaseActivity
import SlashWho.EvidencePhaseStore
import SlashWho.ComparatorSort
import SlashWho.KeyedBuckets
import SlashWho.RaidCatalogue
import SlashWho.CatalogueLookups
import SlashWho.ApplicantIntents
import SlashWho.ApplicantDispatches
import SlashWho.ApplicantClaims
import SlashWho.ApplicantApplications
import SlashWho.ApplicantCounts
import SlashWho.ApplicantPolls
import SlashWho.ApplicantLinks
import SlashWho.ApplicantOutcomes
import SlashWho.ApplicantLinkRuns
import SlashWho.Connectivity
import SlashWho.LinkForest
import SlashWho.CharacterGroups
import SlashWho.CharacterGroupParts
import SlashWho.CharacterComponents
import SlashWho.CharacterGroupRecomputes
import SlashWho.CharacterGroupCycles
import SlashWho.CharacterSeedRecomputes
import SlashWho.GroupAssignments
import SlashWho.GroupPages
import SlashWho.GroupSubjects
import SlashWho.GroupPlacements
import SlashWho.CrossGroupLinks
import SlashWho.AccountStore
import SlashWho.AccountChanges
import SlashWho.AccountSessions
import SlashWho.AccountTokens
import SlashWho.AccountEmails
import SlashWho.AccountSecurity
import SlashWho.ApplicantDossier
import SlashWho.KillMatching
import SlashWho.DossierAccounting
import SlashWho.DossierCards
import SlashWho.DossierTotals
import SlashWho.DossierOrder
import SlashWho.ParsePlan
import SlashWho.RankingDecode
import SlashWho.RankedRows
import SlashWho.ParseCollection
import SlashWho.ParseReads
import SlashWho.ParseAccounting
import SlashWho.FingerprintLiveRows
import SlashWho.FingerprintContinuations
import SlashWho.FingerprintPublications
import SlashWho.FingerprintNextCycles
import SlashWho.GuildHistory
import SlashWho.GuildSpans
import SlashWho.RecencyOrder
import SlashWho.BoundedCache
import SlashWho.BoundedCacheRuns
import SlashWho.WorkerPool
import SlashWho.HistoricKills
import SlashWho.RowLocks
import SlashWho.LoggedEncounterSaves
import SlashWho.LoggedEncounterSaveRuns
import SlashWho.RosterPresence
import SlashWho.RosterPresenceRuns
import SlashWho.FirstKillReads
import SlashWho.FirstKillReadRuns
import SlashWho.FirstKillCredits
import SlashWho.EvidenceReservations
import SlashWho.EvidenceResumes
import SlashWho.IsoTimestamps
import SlashWho.JsonCodecs
import SlashWho.StagedCollections
import SlashWho.StageCodecs
import SlashWho.PublicationWrites
import SlashWho.TerminalTiers
import SlashWho.EvidenceCollections
import SlashWho.StagedPublications
import SlashWho.SlidingWindows
import SlashWho.RequestLimiter
import SlashWho.RequestLimiterRuns
import SlashWho.RequestLimiterPromises
import SlashWho.FingerprintParser
import SlashWho.FingerprintPool
import SlashWho.CallLedgers
import SlashWho.FingerprintPoolRuns
import SlashWho.FingerprintPoolSettles
import SlashWho.RosterProfileResolutions
import SlashWho.RosterProfileRuns
import SlashWho.RosterProfileSafety
import SlashWho.SearchCharges
import SlashWho.SearchChargeRuns
import SlashWho.SearchChargeBounds
import SlashWho.CuttingEdgeGathering
import SlashWho.CuttingEdgeSerial
import SlashWho.SettledCollections
import SlashWho.DiscoveryReservations
import SlashWho.ApplicantCollections
import SlashWho.ApplicantReplays
import SlashWho.DossierConnections
import SlashWho.DossierExclusions
import SlashWho.DossierSubjects
import SlashWho.ConnectionExclusions
import SlashWho.ConcurrencyLimiter
import SlashWho.AdminRequests
import SlashWho.TierSearchStates
import SlashWho.TierSearchAgreement
import SlashWho.FingerprintBacklog
import SlashWho.FingerprintWrites
import SlashWho.FingerprintBacklogRuns
import SlashWho.FingerprintQueue
import SlashWho.TokenSource
import SlashWho.TokenSourceRuns
import SlashWho.TokenSourceLaw
import SlashWho.NightWindows
import SlashWho.Timelines
import SlashWho.MeasurementScope
import SlashWho.MeasurementShares
import SlashWho.MeasurementSplit
