import FastDht.Common.IniLookup
import FastDht.Common.AvlTreeSoundness
import Mathlib.Data.List.Induction
import FastDht.Client.IncCalls
import FastDht.Client.BatchRequests
import FastDht.Client.Routing
import FastDht.Server.FullKeys
import FastDht.Server.MemoryCap
import FastDht.Server.ListGrowth
import FastDht.Server.BinlogPosition
import FastDht.Server.StaleBytes
import FastDht.Server.ExpiryRebasing
import FastDht.Server.IncExact
import FastDht.Server.BucketLocks
import FastDht.Server.UnloggedChanges
import FastDht.Server.Readers
import FastDht.Server.IncAtomicity
import FastDht.Server.Segmentation
import FastDht.Server.Agreement
import FastDht.Server.Joining
import FastDht.Server.ResponseRoom
import FastDht.Server.StateFiles
import FastDht.Server.GroupServers
import FastDht.Server.SyncThread
import FastDht.Server.TimeoutCallbacks
import FastDht.Tool.CompressContents
import FastDht.Tool.CompressSoundness
