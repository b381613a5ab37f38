import KubeStellar.Containers.DifferencerRuns
import KubeStellar.Containers.ProjectedJoin
import KubeStellar.Containers.RelayMap
import KubeStellar.Containers.SetMutex
import KubeStellar.WhatResolver.Precedence
import KubeStellar.WhatResolver.Relabelling
import KubeStellar.WhereResolver.Stranded
import KubeStellar.Translator.WhereResolver
import KubeStellar.WorkloadProjector.Delivery
import KubeStellar.WorkloadProjector.Projection
import KubeStellar.WorkloadProjector.RetryDiscipline
import KubeStellar.WorkloadProjector.SpecReading
import KubeStellar.Syncer.Clients
import KubeStellar.Syncer.Disappearance
import KubeStellar.Syncer.EntryPoints
import KubeStellar.Syncer.Omitted
import KubeStellar.Syncer.Ownership
import KubeStellar.Syncer.SyncerConfigManager
import KubeStellar.Syncer.Wildcards
import KubeStellar.JsonPath.PutGet
import KubeStellar.JsonPath.Replace
import KubeStellar.Customize.Expand
import KubeStellar.ApiWatch.Freshness
import KubeStellar.ApiWatch.MapProvider
import KubeStellar.ApiWatch.Subresources
import KubeStellar.MailboxWatch.Reconfiguration
import KubeStellar.MailboxController.Deletion
import KubeStellar.MailboxController.Recognition
import KubeStellar.SpaceManager.Discovery
import KubeStellar.MultiSpace.Coherence
